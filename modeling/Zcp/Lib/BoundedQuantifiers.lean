import Mathlib.Data.List.Basic

/-!
# Deciding bounded quantifiers

A statement about the elements of a list, or of an option, is decided by going through them, also where their type is
finite.
-/

attribute [instance(2000)] List.decidableBAll List.decidableBEx Option.decidableForallMem Option.decidableExistsMem
