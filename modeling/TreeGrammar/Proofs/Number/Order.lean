import TreeGrammar.Number.Binary

/-! # Order — how doubles compare

    The model of floating point compares two numbers once, by their signs, exponents and
    significands, and its three tests are read off the result: there is none just if one
    of the two is a NaN, and the other way round it is the opposite one.  So of two
    doubles that are no NaNs exactly one test holds. -/

namespace TreeGrammar.Number

open Float.Model (UnpackedFloat)

section Unpacked

variable (u v : UnpackedFloat)

/-- Comparing the other way round gives the opposite order, or none again. -/
theorem unpacked_compare_swap : v.compare u = (u.compare v).map Ordering.swap := by
  -- only two finite numbers of one sign are compared further
  have hfinite (m m' : Nat) (e e' : Int) :
      (compare e' e).then (compare m' m) = ((compare e e').then (compare m m')).swap := by
    rw [Ordering.swap_then, Int.compare_swap, Nat.compare_swap]
  cases u with
  | notANumber => cases v <;> rfl
  | infinity s =>
      cases v with
      | infinity s' => cases s <;> cases s' <;> rfl
      | _ => cases s <;> rfl
  | zero s =>
      cases v with
      | infinity s' => cases s' <;> rfl
      | finite s' m' e' h' => cases s' <;> rfl
      | _ => rfl
  | finite s m e h =>
      cases v with
      | infinity s' => cases s <;> cases s' <;> rfl
      | finite s' m' e' h' =>
          cases s <;> cases s'
          · exact congrArg (fun o => some (Ordering.swap o)) (hfinite m m' e e')
          · rfl
          · rfl
          · exact congrArg some (hfinite m m' e e')
      | _ => cases s <;> rfl

/-- There is an order unless one of the two is not a number. -/
theorem unpacked_compare_eq_none : u.compare v = none ↔ u = .notANumber ∨ v = .notANumber := by
  cases u with
  | notANumber => exact iff_of_true (by cases v <;> rfl) (.inl rfl)
  | infinity s =>
      cases v with
      | notANumber => exact iff_of_true (by cases s <;> rfl) (.inr rfl)
      | _ => exact iff_of_false (by cases s <;> nofun) nofun
  | zero s =>
      cases v with
      | notANumber => exact iff_of_true rfl (.inr rfl)
      | infinity s' => exact iff_of_false (by cases s' <;> nofun) nofun
      | zero s' => exact iff_of_false nofun nofun
      | finite s' m' e' h' => exact iff_of_false (by cases s' <;> nofun) nofun
  | finite s m e h =>
      cases v with
      | notANumber => exact iff_of_true (by cases s <;> rfl) (.inr rfl)
      | infinity s' => exact iff_of_false (by cases s <;> cases s' <;> nofun) nofun
      | zero s' => exact iff_of_false (by cases s <;> nofun) nofun
      | finite s' m' e' h' => exact iff_of_false (by cases s <;> cases s' <;> nofun) nofun

theorem unpacked_isNaN : u.isNaN = true ↔ u = .notANumber := by
  cases u <;> first | exact iff_of_true rfl rfl | exact iff_of_false nofun nofun

end Unpacked

variable (x y : Float)

/-- Two doubles are equal if they compare as equal. -/
theorem beq_eq : (x == y) = (x.toModel.compare y.toModel == some .eq) :=
  rfl

/-- One double is less than another if it compares as less. -/
theorem lt_iff : x < y ↔ x.toModel.compare y.toModel = some .lt := by
  show decide (x.toModel < y.toModel) = true ↔ _
  rw [decide_eq_true_iff]
  exact beq_iff_eq

/-- The test finds what unpacks to no number. -/
theorem isNaN_iff : x.isNaN = true ↔ x.toModel.unpack = .notANumber :=
  unpacked_isNaN x.toModel.unpack

/-- Doubles compare the other way round as their unpacked values do. -/
theorem compare_swap : y.toModel.compare x.toModel
    = (x.toModel.compare y.toModel).map Ordering.swap :=
  unpacked_compare_swap x.toModel.unpack y.toModel.unpack

/-- The tests one after the other find what the model compares at once. -/
theorem compare?_eq : compare? x y = x.toModel.compare y.toModel := by
  rw [compare?]
  simp only [lt_iff, beq_eq, compare_swap x y]
  rcases x.toModel.compare y.toModel with _ | _ | _ | _ <;> rfl

/-- The other way round the order is the opposite one. -/
theorem compare?_swap : compare? y x = (compare? x y).map Ordering.swap := by
  rw [compare?_eq, compare?_eq, compare_swap]

/-- Only a NaN is in no order. -/
theorem compare?_eq_none : compare? x y = none ↔ x.isNaN = true ∨ y.isNaN = true := by
  rw [compare?_eq, isNaN_iff, isNaN_iff]
  exact unpacked_compare_eq_none x.toModel.unpack y.toModel.unpack

/-- Doubles are equal as numbers if their order is that of equals. -/
theorem beq_eq_compare? : (x == y) = (compare? x y == some .eq) := by
  rw [compare?_eq, beq_eq]

end TreeGrammar.Number
