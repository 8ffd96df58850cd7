import Mathlib

/-!
# Numerals of a field

A numeral of a field carries the proof that it is at least two. Each proof has a name here, so
that a definition is one term wherever it is read.
-/

namespace Numeral

instance atLeastTwo_two : Nat.AtLeastTwo 2 := ⟨by decide⟩

instance atLeastTwo_ten : Nat.AtLeastTwo 10 := ⟨by decide⟩

instance atLeastTwo_hoursOfDay : Nat.AtLeastTwo 24 := ⟨by decide⟩

instance atLeastTwo_sixty : Nat.AtLeastTwo 60 := ⟨by decide⟩

instance atLeastTwo_hundred : Nat.AtLeastTwo 100 := ⟨by decide⟩

instance atLeastTwo_daysOfYear : Nat.AtLeastTwo 365 := ⟨by decide⟩

instance atLeastTwo_thousand : Nat.AtLeastTwo 1000 := ⟨by decide⟩

instance atLeastTwo_basisPoints : Nat.AtLeastTwo 10000 := ⟨by decide⟩

instance atLeastTwo_million : Nat.AtLeastTwo 1000000 := ⟨by decide⟩

instance atLeastTwo_hourMs : Nat.AtLeastTwo 3600000 := ⟨by decide⟩

end Numeral
