-- What a trip through an engine makes of a host value. The script has 32-bit integers and
-- doubles only, so a number comes back in the form in which the script has it. A value that
-- has been through an engine once is not changed by a second trip.
import ScriptHost.Proofs.Double.Whole
import ScriptHost.Proofs.Exchange.Settling
import ScriptHost.Proofs.Layout.Canonical

namespace ScriptHost

/-! ## Normal forms -/

/-- A document that is no scalar. -/
inductive Json.Compound : Json → Prop
  | items (items : List Json) : Compound (.arr items)
  | members (members : List (String × Json)) : Compound (.obj members)

namespace HostValue

/-- `Normal v v'` says that `v'` is the form in which `v` comes back. Integers past 32 bits
are rounded, and doubles that are 32-bit integers, bit for bit, become integers. -/
inductive Normal : HostValue → HostValue → Prop
  | null : Normal null null
  | bool (b : Bool) : Normal (bool b) (bool b)
  | text (s : String) : Normal (text s) (text s)
  | document {d : Json} : d.Compound → Normal (json d) (json d)
  | narrow {n : Int64} : -2 ^ 31 ≤ n.toInt → n.toInt < 2 ^ 31 → Normal (int n) (int n)
  | wide {n : Int64} {d : Double} : n.toInt < -2 ^ 31 ∨ 2 ^ 31 ≤ n.toInt →
    Double.IsNearest n.toInt d → Normal (int n) (float d)
  | whole {d : Double} {n : Int32} : d.Holds n.toInt → Normal (float d) (int n.toInt64)
  | double {d : Double} : (∀ n : Int32, ¬ d.Holds n.toInt) → Normal (float d) (float d.canonical)

/-- The zero with a sign and the infinities. The script has no integer for any of them. -/
inductive Special : HostValue → Prop
  | negZero : Special (float ⟨0x8000000000000000⟩)
  | infinity : Special (float .infinity)
  | negInfinity : Special (float .negInfinity)

/-- The values that can go over: a document has to be no scalar, and the JSON library has to
read its text back as that document. -/
def Travels : HostValue → Prop
  | json d => d.Compound ∧ Json.parse? d.text = some d
  | _ => True

end HostValue

namespace Double

theorem canonical_of_isFinite {d : Double} (h : d.isFinite = true) : d.canonical = d :=
  d.canonical_eq_self_iff.mpr (Or.inl (isNaN_of_isFinite h))

/-- A NaN holds no integer, also when it is made the canonical one. -/
theorem holds_canonical_iff (d : Double) (n : Int) : d.canonical.Holds n ↔ d.Holds n := by
  by_cases h : d.isNaN = true
  · have hc : d.canonical = canonicalNaN := if_pos h
    rw [hc]
    refine iff_of_false (fun hn => absurd hn.finite (by decide)) fun hd => ?_
    simp [isNaN_of_isFinite hd.finite] at h
  · rw [canonical, if_neg h]

end Double

namespace HostValue.Normal

/-- A value comes back in one form. -/
theorem unique {v a b : HostValue} (ha : Normal v a) (hb : Normal v b) : a = b := by
  cases ha with
  | null => cases hb; rfl
  | bool b => cases hb; rfl
  | text s => cases hb; rfl
  | document hd => cases hb; rfl
  | narrow hl hh =>
    cases hb with
    | narrow => rfl
    | wide hw => omega
  | wide hw hd =>
    cases hb with
    | narrow => omega
    | wide _ hd' => rw [hd.unique hd' (hd.value_ne_zero hw)]
  | whole hn =>
    cases hb with
    | whole hn' => rw [Int32.toInt_inj.mp (hn.unique hn')]
    | double h => exact absurd hn (h _)
  | double h =>
    cases hb with
    | whole hn => exact absurd hn (h _)
    | double => rfl

/-- What has come back once comes back as it is. -/
theorem again {v a : HostValue} (h : Normal v a) : Normal a a := by
  cases h with
  | null => exact .null
  | bool b => exact .bool b
  | text s => exact .text s
  | document hd => exact .document hd
  | narrow hl hh => exact .narrow hl hh
  | wide hw hd =>
    have h := Normal.double (hd.not_holds hw)
    rw [Double.canonical_of_isFinite hd.finite] at h
    exact h
  | @whole d n _ =>
    have hlow := n.le_toInt
    have hhigh := n.toInt_lt
    rw [← n.toInt_toInt64] at hlow hhigh
    exact .narrow hlow hhigh
  | @double d h =>
    have h := Normal.double (d := d.canonical) fun n hn => h n ((d.holds_canonical_iff _).mp hn)
    rw [d.canonical_canonical] at h
    exact h

/-- No integer has the sign of this zero, and the infinities are no integers at all. -/
theorem of_special {v : HostValue} (h : v.Special) : Normal v v := by
  cases h with
  | negZero =>
    have hn : ∀ n : Int32, ¬ (Double.mk 0x8000000000000000).Holds n.toInt := by
      intro n hd
      have hnum : (Double.mk 0x8000000000000000).num = 0 := by decide
      have hneg : (Double.mk 0x8000000000000000).isNegative = true := by decide
      have h0 := hd.num_eq
      have hden := (Double.mk 0x8000000000000000).den_pos
      have hs := hd.sign
      rw [hnum, eq_comm, Nat.mul_eq_zero] at h0
      rw [hneg, eq_comm, decide_eq_true_iff] at hs
      omega
    exact .double hn
  | infinity => exact .double fun _ hd => absurd hd.finite (by decide)
  | negInfinity => exact .double fun _ hd => absurd hd.finite (by decide)

theorem travels {v a : HostValue} (h : Normal v a) (hv : v.Travels) : a.Travels := by
  cases h with
  | document hd => exact hv
  | _ => trivial

end HostValue.Normal

/-! ## Values that need no engine -/

namespace Layout

variable (ℓ : Layout)

theorem alone?_ofInt32 (n : Int32) : ℓ.alone? (ℓ.ofInt32 n) = some (.ok (.int n.toInt64)) := by
  have ht : ℓ.tag? (ℓ.ofInt32 n) = some .int := ℓ.tag?_immediate .int n
  have hn : ℓ.int32 (ℓ.ofInt32 n) = n := by
    rw [ofInt32, immediate_eq_assemble, ℓ.int32_assemble .int (ℓ.fits_half _)]
    simp
  simp [alone?, ht, hn]

theorem alone?_ofDouble (d : Double) :
    ℓ.alone? (ℓ.ofDouble d) = some (.ok (.float d.canonical)) := by
  simp [alone?, ℓ.tag?_ofDouble d, ℓ.double_ofDouble d]

theorem alone?_ofBool (b : Bool) : ℓ.alone? (ℓ.ofBool b) = some (.ok (.bool b)) := by
  have ht : ℓ.tag? (ℓ.ofBool b) = some .bool := ℓ.tag?_immediate .bool _
  have hb : ℓ.bool (ℓ.ofBool b) = b := by
    rw [bool, ofBool, immediate_eq_assemble, ℓ.int32_assemble .bool (ℓ.fits_half _)]
    cases b <;> rfl
  simp [alone?, ht, hb]

/-- The word of a plain host value is read as the form in which the value comes back. -/
theorem alone?_of_plain? {v : HostValue} {w : ℓ.Word} (h : ℓ.plain? v = some w) :
    ∃ a, v.Normal a ∧ ℓ.alone? w = some (.ok a) := by
  cases v with
  | null =>
    cases h
    exact ⟨_, .null, by simp [alone?, ℓ.tag?_immediate .null 0]⟩
  | bool b =>
    cases h
    exact ⟨_, .bool b, ℓ.alone?_ofBool b⟩
  | int n =>
    cases h
    unfold ofInt64
    split
    · rename_i i hi
      have hn := (narrow?_eq_some_iff n i).mp hi
      have hlow := i.le_toInt
      have hhigh := i.toInt_lt
      have heq : i.toInt64 = n := Int64.toInt_inj.mp (by rw [i.toInt_toInt64, hn])
      exact ⟨_, .narrow (by omega) (by omega), heq ▸ ℓ.alone?_ofInt32 i⟩
    · rename_i hi
      have hw := (narrow?_eq_none_iff n).mp hi
      have hlow := n.le_toInt
      have hhigh := n.toInt_lt
      have hd := Double.isNearest_ofInt (n := n.toInt) (by omega)
      refine ⟨_, .wide hw hd, ?_⟩
      rw [alone?_ofDouble, Double.canonical_of_isFinite hd.finite]
  | float d =>
    cases h
    unfold ofNumber
    split
    · rename_i i hi
      exact ⟨_, .whole ((d.asInt32?_eq_some_iff i).mp hi), ℓ.alone?_ofInt32 i⟩
    · rename_i hi
      exact ⟨_, .double (d.asInt32?_eq_none_iff.mp hi), ℓ.alone?_ofDouble d⟩
  | text s => cases h
  | json d => cases h

end Layout

end ScriptHost
