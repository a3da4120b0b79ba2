-- The JSON views of a host value. Its text is the text of its document, and a value read back from
-- its document is the same value, but for doubles that are not finite and for scalar documents.
-- What was read back once is read back as it is.
import ScriptHost.Proofs.Json.Documents

namespace ScriptHost

/-! ## What a value is read back as -/

/-- A document that is a scalar, with the host value of its own kind. A whole number past the
64 bits that have a sign is of the kind of doubles. -/
inductive Json.Scalar : Json → HostValue → Prop
  | null : Scalar .null .null
  | bool (b : Bool) : Scalar (.bool b) (.bool b)
  | text (s : String) : Scalar (.str s) (.text s)
  | int {n : Int} {fits : Json.Fits n} {i : Int64} : i.toInt = n →
    Scalar (.num (.int n fits)) (.int i)
  | wide {n : Int} {fits : Json.Fits n} {d : Double} : 2 ^ 63 ≤ n → Double.IsNearest n d →
    Scalar (.num (.int n fits)) (.float d)
  | float {d : Double} (finite : d.isFinite = true) : Scalar (.num (.float d finite)) (.float d)

namespace HostValue

/-- The value that is read back from the document of a value. -/
def throughJson (v : HostValue) : HostValue := ofJson v.toJson

/-- A value that JSON cannot tell from another one: a double that is not finite, or a document
that is a scalar. -/
inductive Blurred : HostValue → Prop
  | special {d : Double} : d.isFinite = false → Blurred (float d)
  | scalar {v : Json} {own : HostValue} : v.Scalar own → Blurred (json v)

/-- `Reread v v'` says that `v` is read back as `v'`. -/
inductive Reread : HostValue → HostValue → Prop
  | same {v : HostValue} : ¬ v.Blurred → Reread v v
  | special {d : Double} : d.isFinite = false → Reread (float d) null
  | scalar {v : Json} {own : HostValue} : v.Scalar own → Reread (json v) own

end HostValue

namespace Json

theorem ofDouble_of_not_isFinite {d : Double} (h : d.isFinite = false) : ofDouble d = .null := by
  simp [ofDouble, Number.ofDouble?, h]

/-- The value of a number is of the number's own kind. -/
theorem scalar_num (n : Number) : Scalar (.num n) (HostValue.ofNumber n) := by
  cases n with
  | float d finite => exact .float finite
  | int n fits =>
    have hmax : n ≤ Int64.maxValue.toInt ↔ n < 2 ^ 63 := by
      rw [Int64.toInt_maxValue]
      omega
    unfold HostValue.ofNumber
    by_cases hn : n < 2 ^ 63
    · simp only [if_pos (hmax.mpr hn)]
      exact .int (Int64.toInt_ofInt_of_le fits.1 hn)
    · simp only [if_neg (mt hmax.mp hn)]
      have hlt : n.natAbs < 2 ^ 64 := by
        have := fits.2
        omega
      exact .wide (not_lt.mp hn) (Double.isNearest_ofInt hlt)

/-- A scalar has a kind of its own, which is never that of documents. -/
theorem Scalar.ne_json {v : Json} {own : HostValue} (h : v.Scalar own) : own ≠ .json v := by
  cases h <;> nofun

/-- The value of a scalar stands for itself. -/
theorem Scalar.not_blurred {v : Json} {own : HostValue} (h : v.Scalar own) : ¬ own.Blurred := by
  intro hb
  cases hb with
  | special hd =>
    cases h with
    | wide _ hn => simp [hn.finite] at hd
    | float finite => simp [finite] at hd
  | scalar _ => cases h

end Json

namespace HostValue

theorem throughJson_int (n : Int64) : (int n).throughJson = int n := by
  have hle : n.toInt ≤ Int64.maxValue.toInt := by
    have := n.toInt_lt
    rw [Int64.toInt_maxValue]
    omega
  simp [throughJson, toJson, Json.ofInt64, ofJson, ofNumber, hle]

theorem throughJson_float {d : Double} (h : d.isFinite = true) :
    (float d).throughJson = float d := by
  simp [throughJson, toJson, Json.ofDouble_of_isFinite h, ofJson, ofNumber]

theorem throughJson_special {d : Double} (h : d.isFinite = false) :
    (float d).throughJson = null := by
  simp [throughJson, toJson, Json.ofDouble_of_not_isFinite h, ofJson]

theorem reread_throughJson (v : HostValue) : Reread v v.throughJson := by
  cases v with
  | null | bool | text => exact .same nofun
  | int n =>
    rw [throughJson_int]
    exact .same nofun
  | float d =>
    cases hd : d.isFinite with
    | true =>
      rw [throughJson_float hd]
      refine .same ?_
      rintro ⟨hnot⟩
      rw [hd] at hnot
      cases hnot
    | false =>
      rw [throughJson_special hd]
      exact .special hd
  | json v =>
    cases v with
    | null => exact .scalar .null
    | bool b => exact .scalar (.bool b)
    | num n => exact .scalar (Json.scalar_num n)
    | str s => exact .scalar (.text s)
    | arr | obj => exact .same nofun

namespace Reread

variable {v v' : HostValue}

/-- A value is read back as itself exactly if JSON can tell it from every other one. -/
theorem eq_iff (h : Reread v v') : v' = v ↔ ¬ v.Blurred := by
  cases h with
  | same hv => exact iff_of_true rfl hv
  | special hd => exact iff_of_false nofun (not_not.mpr (.special hd))
  | scalar hs => exact iff_of_false hs.ne_json (not_not.mpr (.scalar hs))

theorem not_blurred (h : Reread v v') : ¬ v'.Blurred := by
  cases h with
  | same hv => exact hv
  | special _ => nofun
  | scalar hs => exact hs.not_blurred

end Reread

/-! ## The text -/

/-- A value is written as its document is. -/
theorem serialize_eq_text (v : HostValue) : v.serialize = v.toJson.text := by
  unfold Json.text
  cases v with
  | null => rfl
  | bool b => cases b <;> rfl
  | int n => simp [serialize, toJson, Json.ofInt64, Json.render, Json.Number.render]
  | float d =>
    -- Both write null where there is no number to write.
    cases hd : d.isFinite with
    | true =>
      simp [serialize, hd, toJson, Json.ofDouble_of_isFinite hd, Json.render, Json.Number.render]
    | false => simp [serialize, hd, toJson, Json.ofDouble_of_not_isFinite hd, Json.render]
  | text s => simp [serialize, toJson, Json.render]
  | json v => rfl

/-! ## The law -/

/-- The text of a value is the text of its document. A value is read back from its document as
itself unless it is a double that is not finite, which becomes null, or a scalar document, which
becomes the value of its own kind. A second reading changes nothing. -/
theorem views_agree (v : HostValue) :
    v.serialize = v.toJson.text ∧
      v.throughJson.throughJson = v.throughJson ∧
      (v.throughJson = v ↔ ¬ v.Blurred) ∧
      Reread v v.throughJson := by
  have h := reread_throughJson v
  refine ⟨serialize_eq_text v, ?_, h.eq_iff, h⟩
  exact (reread_throughJson v.throughJson).eq_iff.mpr h.not_blurred

-- The largest number without a sign is read back as a double.
example : ofJson (json (.num (.int (2 ^ 64 - 1) (by decide)))).toJson =
    float ⟨0x43F0000000000000⟩ := rfl

end HostValue

end ScriptHost
