import LpMaker.Config

/-!
# The identity of a configuration

A state directory belongs to the configuration it was written under. The maintenance commands
compare configurations by mode, venue, strategy and margin, and ignore how the venues are
reached.
-/

namespace LpMaker

/-- The liquidity section without the keys about transport. -/
structure LiquidityTerms where
  chainId : Nat
  pool : String
  terms : String
deriving DecidableEq

/-- The hyperliquid section without the keys about transport and without the margin settings. -/
structure HyperliquidTerms where
  mainnet : Bool
  hedgeCoin : String
  terms : String
deriving DecidableEq

/-- A configuration as the maintenance commands use it. The strategy section is only copied
and compared; `other` is what the fingerprint leaves out. -/
structure Settings where
  mode : Mode
  stateDir : String
  liquidity : LiquidityTerms
  strategy : String
  hyperliquid : HyperliquidTerms
  crossMargin : Bool
  leverage : Nat
  other : String
deriving DecidableEq

/-- The value which `transport_independent_fingerprint` returns. An old state may lack what a
configuration always has. -/
structure Fingerprint where
  mode : Mode
  liquidity : LiquidityTerms
  strategy : Option String
  hyperliquid : HyperliquidTerms
  crossMargin : Option Bool
  leverage : Option Nat
deriving DecidableEq

/-- The fingerprint of the serialized sections of a configuration. -/
def Settings.fingerprint (settings : Settings) : Fingerprint where
  mode := settings.mode
  liquidity := settings.liquidity
  strategy := some settings.strategy
  hyperliquid := settings.hyperliquid
  crossMargin := some settings.crossMargin
  leverage := some settings.leverage

end LpMaker
