-- Documents made host values and documents again. A host value has integers of 64 bits with a
-- sign, so a whole number past them goes over as a double. Every other document comes back.
import ScriptHost.HostValue
import ScriptHost.Proofs.Double.Whole

namespace ScriptHost

/-! ## Equality -/

theorem Double.equals_self {d : Double} (h : d.isFinite = true) : d.equals d = true := by
  simp [equals, isNaN_of_isFinite h]

namespace Json

theorem Number.equals_self (n : Number) : n.equals n = true := by
  cases n with
  | int n fits => exact beq_self_eq_true n
  | float d finite => exact Double.equals_self finite

mutual

/-- Every document equals itself, for a document has no NaN. -/
theorem equals_self (v : Json) : v.equals v = true := by
  cases v with
  | null => simp [equals]
  | bool b => simp [equals]
  | num n => simpa [equals] using n.equals_self
  | str s => simp [equals]
  | arr items => simpa [equals] using itemsEqual_self items
  | obj members => simpa [equals] using membersEqual_self members

theorem itemsEqual_self (items : List Json) : itemsEqual items items = true := by
  cases items with
  | nil => simp [itemsEqual]
  | cons v items => simp [itemsEqual, equals_self v, itemsEqual_self items]

theorem membersEqual_self (members : List (String × Json)) :
    membersEqual members members = true := by
  cases members with
  | nil => simp [membersEqual]
  | cons x members => simp [membersEqual, equals_self x.2, membersEqual_self members]

end

/-! ## The trip -/

/-- A whole number past the 64 bits that have a sign. -/
inductive Wide : Json → Prop
  | num {n : Int} {fits : Fits n} : 2 ^ 63 ≤ n → Wide (.num (.int n fits))

/-- `Returned v v'` says that `v` comes back as `v'`. -/
inductive Returned : Json → Json → Prop
  | same {v : Json} : ¬ v.Wide → Returned v v
  | rounded {n : Int} {fits : Fits n} {d : Double} {finite : d.isFinite = true} : 2 ^ 63 ≤ n →
    Double.IsNearest n d → Returned (.num (.int n fits)) (.num (.float d finite))

theorem ofDouble_of_isFinite {d : Double} (h : d.isFinite = true) :
    ofDouble d = .num (.float d h) := by
  rw [ofDouble, Number.ofDouble?, dif_pos h]
  rfl

/-- A whole number that fits with a sign goes over as an integer and comes back. -/
theorem toJson_ofNumber_of_fits {n : Int} (fits : Fits n) (hn : n < 2 ^ 63) :
    (HostValue.ofNumber (.int n fits)).toJson = .num (.int n fits) := by
  have hint : (Int64.ofInt n).toInt = n := Int64.toInt_ofInt_of_le fits.1 hn
  have hmax : n ≤ Int64.maxValue.toInt := by
    rw [Int64.toInt_maxValue]
    omega
  have hover : HostValue.ofNumber (.int n fits) = .int (.ofInt n) := if_pos hmax
  rw [hover]
  show ofInt64 (.ofInt n) = _
  simp only [ofInt64, hint]

/-- One that does not is rounded on the way. -/
theorem toJson_ofNumber_of_wide {n : Int} (fits : Fits n) (hn : 2 ^ 63 ≤ n) :
    ∃ (d : Double) (finite : d.isFinite = true), Double.IsNearest n d ∧
      (HostValue.ofNumber (.int n fits)).toJson = .num (.float d finite) := by
  have hlt : n.natAbs < 2 ^ 64 := by
    have := fits.2
    omega
  have hmax : ¬ n ≤ Int64.maxValue.toInt := by
    rw [Int64.toInt_maxValue]
    omega
  have hover : HostValue.ofNumber (.int n fits) = .float (.ofInt n) := if_neg hmax
  refine ⟨.ofInt n, Double.isFinite_ofInt hlt, Double.isNearest_ofInt hlt, ?_⟩
  rw [hover]
  exact ofDouble_of_isFinite _

/-- A number comes back with its kind unless it is wide. -/
theorem returned_num (n : Number) : Returned (.num n) (HostValue.ofNumber n).toJson := by
  cases n with
  | float d finite =>
    show Returned _ (ofDouble d)
    rw [ofDouble_of_isFinite finite]
    exact .same nofun
  | int n fits =>
    by_cases hn : n < 2 ^ 63
    · rw [toJson_ofNumber_of_fits fits hn]
      refine .same ?_
      rintro ⟨hwide⟩
      omega
    · obtain ⟨d, finite, hd, hback⟩ := toJson_ofNumber_of_wide fits (by omega)
      rw [hback]
      exact .rounded (by omega) hd

theorem returned_ofJson (v : Json) : Returned v (HostValue.ofJson v).toJson := by
  cases v with
  | num n => exact returned_num n
  | _ => exact .same nofun

/-- A document comes back equal to itself or not at all, for a double is no whole number. -/
theorem Returned.equals_iff {v v' : Json} (h : Returned v v') :
    (v' = v ↔ ¬ v.Wide) ∧ (v'.equals v = true ↔ ¬ v.Wide) := by
  cases h with
  | same hv => exact ⟨iff_of_true rfl hv, iff_of_true v.equals_self hv⟩
  | rounded hn _ =>
    refine ⟨iff_of_false nofun (not_not.mpr ⟨hn⟩), iff_of_false ?_ (not_not.mpr ⟨hn⟩)⟩
    simp [equals, Number.equals]

/-- Exactly the documents that are no wide number come back equal, kind and all. A wide number
comes back as the double nearest to it. -/
theorem documents_come_back_unless_wide (v : Json) :
    ((HostValue.ofJson v).toJson = v ↔ ¬ v.Wide) ∧
      ((HostValue.ofJson v).toJson.equals v = true ↔ ¬ v.Wide) ∧
      Returned v (HostValue.ofJson v).toJson := by
  have h := returned_ofJson v
  exact ⟨h.equals_iff.1, h.equals_iff.2, h⟩

/-- The first whole number that does not fit with a sign comes back as a double. -/
theorem not_every_document_comes_back :
    ¬ ∀ v : Json, (HostValue.ofJson v).toJson.equals v = true := by
  intro h
  have hfits : Fits (2 ^ 63) := by decide
  have hback := (returned_ofJson (.num (.int (2 ^ 63) hfits))).equals_iff.2.mp (h _)
  exact hback ⟨le_refl _⟩

end Json

end ScriptHost
