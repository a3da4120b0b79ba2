-- What is heard of each exchange that returns: which calls it makes, in which order,
-- what it gives back and what it logs. Each relation has one case for each way in
-- which its exchange can go.
import ScriptHost.Proofs.Exchange.Returns

namespace ScriptHost

variable {ℓ : Layout} {σ ε α : Type}

/-! ## The courses of the exchanges -/

/-- A handle dropped. The block is freed when the reference was the last one. -/
inductive Dropping (x : Handle ℓ) : List (Event ℓ ε) → Prop
  | kept {left : Option Int32} (h : left ≠ some 0) : Dropping x [.release x.word left]
  | last {control : ControlState} {inner : List ε} :
    Dropping x [.release x.word (some 0), .log ⟨.trace, x.freeing⟩,
      .call ⟨.freeValue x.word, control, inner, some ()⟩]

/-- The text of a word, if there is one. A buffer is read and given back. -/
inductive Coercion (w : ℓ.Word) : Option String → List (Event ℓ ε) → Prop
  | thrown {control : ControlState} {inner : List ε} :
    Coercion w none [.call ⟨.toText w, control, inner, some none⟩]
  | read {control control' : ControlState} {inner inner' : List ε} (b : Buffer) :
    Coercion w (some (Utf8.decodeLossy b.bytes))
      [.call ⟨.toText w, control, inner, some (some b)⟩, .read b,
        .call ⟨.freeText b, control', inner', some ()⟩]

/-- The pending exception taken, printed, logged and dropped. When printing it throws, the
second exception is taken and dropped first. -/
inductive Report (during : String) : List (Event ℓ ε) → Prop
  | printed {control : ControlState} {inner : List ε} {thrown : ℓ.Word} {s : String}
    {xs ys : List (Event ℓ ε)} :
    Coercion thrown (some s) xs → Dropping ⟨thrown⟩ ys →
    Report during (.call ⟨.takeException, control, inner, some thrown⟩ ::
      (xs ++ .log ⟨.warn, Host.discarded during (some s)⟩ :: ys))
  | unprintable {control control' : ControlState} {inner inner' : List ε} {thrown second : ℓ.Word}
    {xs ys zs : List (Event ℓ ε)} :
    Coercion thrown none xs → Dropping ⟨second⟩ ys → Dropping ⟨thrown⟩ zs →
    Report during (.call ⟨.takeException, control, inner, some thrown⟩ ::
      (xs ++ .call ⟨.takeException, control', inner', some second⟩ ::
        (ys ++ .log ⟨.warn, Host.discarded during none⟩ :: zs)))

/-- A text asked for. -/
inductive Texting (w : ℓ.Word) : Except ProjectionError String → List (Event ℓ ε) → Prop
  | text {s : String} {xs : List (Event ℓ ε)} : Coercion w (some s) xs → Texting w (.ok s) xs
  | thrown {xs ys : List (Event ℓ ε)} :
    Coercion w none xs → Report "string coercion" ys →
    Texting w (.error .stringConversion) (xs ++ ys)

/-- The projection of a word that needs no engine. -/
def Layout.alone? (ℓ : Layout) (w : ℓ.Word) : Option (Except ProjectionError HostValue) :=
  match ℓ.tag? w with
  | none => some (.error (.unknownTag (ℓ.tagNumber w)))
  | some .int => some (.ok (.int (ℓ.int32 w).toInt64))
  | some .bool => some (.ok (.bool (ℓ.bool w)))
  | some .null | some .undefined | some .uninitialized => some (.ok .null)
  | some .float64 => some (.ok (.float (ℓ.double w)))
  | some .symbol => some (.error (.unsupported .symbol))
  | some .catchOffset => some (.error (.unsupported .catchOffset))
  | some .exception => some (.error (.unsupported .exception))
  | some .functionBytecode => some (.error (.unsupported .functionBytecode))
  | some .moduleRecord => some (.error (.unsupported .moduleRecord))
  | some .string | some .bigFloat | some .bigDecimal | some .bigInt | some .object => none

/-- A word projected. An object goes over as what its JSON text is projected to. -/
inductive Projection : ℓ.Word → Except ProjectionError HostValue → List (Event ℓ ε) → Prop
  | alone {w : ℓ.Word} {r : Except ProjectionError HostValue} :
    ℓ.alone? w = some r → Projection w r []
  | text {w : ℓ.Word} {r : Except ProjectionError String} {xs : List (Event ℓ ε)} :
    ℓ.tag? w = some .string → Texting w r xs → Projection w (r.map .text) xs
  | double {w : ℓ.Word} {t : Tag} {d : Double} {control : ControlState} {inner : List ε} :
    ℓ.tag? w = some t → t = .bigFloat ∨ t = .bigDecimal →
    Projection w (.ok (.float d)) [.call ⟨.toDouble w, control, inner, some (some d)⟩]
  | doubleThrown {w : ℓ.Word} {t : Tag} {control : ControlState} {inner : List ε}
    {xs : List (Event ℓ ε)} :
    ℓ.tag? w = some t → t = .bigFloat ∨ t = .bigDecimal → Report "numeric coercion" xs →
    Projection w (.error (.coercion t)) (.call ⟨.toDouble w, control, inner, some none⟩ :: xs)
  | exact {w : ℓ.Word} {n : Int64} {control : ControlState} {inner : List ε} :
    ℓ.tag? w = some .bigInt →
    Projection w (.ok (.int n)) [.call ⟨.toBigInteger w, control, inner, some (.exact n)⟩]
  | outOfRange {w : ℓ.Word} {control : ControlState} {inner : List ε} :
    ℓ.tag? w = some .bigInt →
    Projection w (.error (.outOfRange .bigInt))
      [.call ⟨.toBigInteger w, control, inner, some .outOfRange⟩]
  | integerThrown {w : ℓ.Word} {control : ControlState} {inner : List ε}
    {xs : List (Event ℓ ε)} :
    ℓ.tag? w = some .bigInt → Report "numeric coercion" xs →
    Projection w (.error (.coercion .bigInt))
      (.call ⟨.toBigInteger w, control, inner, some .threw⟩ :: xs)
  | object {w v : ℓ.Word} {r : Except ProjectionError HostValue} {control : ControlState}
    {inner : List ε} {xs ys : List (Event ℓ ε)} :
    ℓ.tag? w = some .object → ℓ.isException v = false → Projection v r xs → Dropping ⟨v⟩ ys →
    Projection w (r.bind Host.document)
      (.call ⟨.stringify w, control, inner, some v⟩ :: (xs ++ ys))
  | objectThrown {w v : ℓ.Word} {control : ControlState} {inner : List ε}
    {xs ys : List (Event ℓ ε)} :
    ℓ.tag? w = some .object → ℓ.isException v = true → Report "JSON.stringify" xs →
    Dropping ⟨v⟩ ys →
    Projection w (.error (.exception "JSON.stringify"))
      (.call ⟨.stringify w, control, inner, some v⟩ :: (xs ++ ys))

/-- The word of a host value that needs no engine. -/
def Layout.plain? (ℓ : Layout) : HostValue → Option ℓ.Word
  | .null => some (ℓ.immediate .null 0)
  | .bool b => some (ℓ.ofBool b)
  | .int n => some (ℓ.ofInt64 n)
  | .float d => some (ℓ.ofNumber d)
  | .text _ | .json _ => none

/-- A host value embedded. -/
inductive Embedding : HostValue → Except ProjectionError (Handle ℓ) → List (Event ℓ ε) → Prop
  | plain {v : HostValue} {w : ℓ.Word} : ℓ.plain? v = some w → Embedding v (.ok ⟨w⟩) []
  | text {s : String} {w : ℓ.Word} {control : ControlState} {inner : List ε} :
    ℓ.isException w = false →
    Embedding (.text s) (.ok ⟨w⟩) [.call ⟨.newText s, control, inner, some w⟩]
  | textThrown {s : String} {w : ℓ.Word} {control : ControlState} {inner : List ε}
    {xs ys : List (Event ℓ ε)} :
    ℓ.isException w = true → Report "string construction" xs → Dropping ⟨w⟩ ys →
    Embedding (.text s) (.error (.exception "string construction"))
      (.call ⟨.newText s, control, inner, some w⟩ :: (xs ++ ys))
  | document {v : Json} {w : ℓ.Word} {control : ControlState} {inner : List ε} :
    ℓ.isException w = false →
    Embedding (.json v) (.ok ⟨w⟩) [.call ⟨.parse v.text, control, inner, some w⟩]
  | documentThrown {v : Json} {w : ℓ.Word} {control : ControlState} {inner : List ε}
    {xs ys : List (Event ℓ ε)} :
    ℓ.isException w = true → Report "JSON.parse" xs → Dropping ⟨w⟩ ys →
    Embedding (.json v) (.error (.exception "JSON.parse"))
      (.call ⟨.parse v.text, control, inner, some w⟩ :: (xs ++ ys))

/-! ## References -/

theorem Exchange.retain_returns (e : Engine ℓ σ ε) (w : ℓ.Word) :
    Returns e (Exchange.retain w : Exchange ℓ σ ε ℓ.Word) fun v xs => v = w ∧ xs = [.retain w] := by
  intro m v events m' hr
  obtain ⟨hv, rfl, rfl⟩ := Outcome.mk.inj hr
  cases hv
  exact ⟨.single (.retain m w), rfl, rfl⟩

theorem Exchange.release_returns (e : Engine ℓ σ ε) (w : ℓ.Word) :
    Returns e (Exchange.release w : Exchange ℓ σ ε Bool) fun last xs =>
      ∃ left, last = (left == some 0) ∧ xs = [.release w left] := by
  intro m last events m' hr
  obtain ⟨hv, rfl, rfl⟩ := Outcome.mk.inj hr
  cases hv
  exact ⟨.single (.release m w), _, rfl, rfl⟩

theorem Handle.drop_returns (h : Host ℓ σ ε) (x : Handle ℓ) :
    Returns h.engine (x.drop h) fun _ xs => Dropping x xs := by
  refine Returns.bind (Exchange.release_returns h.engine x.word) ?_
  rintro last _ ⟨left, rfl, rfl⟩
  by_cases hl : left = some 0
  · subst hl
    refine Returns.bind (P := fun _ xs => xs = [.log ⟨.trace, x.freeing⟩]) (Returns.log rfl) ?_
    rintro _ _ rfl
    refine (h.ask_hears (.freeValue x.word)).mono ?_
    rintro _ _ ⟨control, inner, rfl⟩
    exact .last
  · rw [if_neg (by simpa using hl)]
    exact Returns.pure (.kept hl)

/-- What is heard of a body with a handle ends with the handle dropped. -/
theorem Handle.within_returns {h : Host ℓ σ ε} {x : Handle ℓ} {body : Exchange ℓ σ ε α}
    {P Q : α → List (Event ℓ ε) → Prop} (hb : Returns h.engine body P)
    (hp : ∀ a xs ys, P a xs → Dropping x ys → Q a (xs ++ ys)) :
    Returns h.engine (x.within h body) Q :=
  hb.ensuring (x.drop_returns h) hp

/-! ## Texts and exceptions -/

namespace Host

theorem readBuffer_returns (h : Host ℓ σ ε) (b : Buffer) :
    Returns h.engine (h.readBuffer b) fun s xs => s = Utf8.decodeLossy b.bytes ∧
      ∃ control inner, xs = [.read b, .call ⟨.freeText b, control, inner, some ()⟩] := by
  refine Returns.ensuring (P := fun s xs => s = Utf8.decodeLossy b.bytes ∧ xs = [.read b])
    ?_ (h.ask_hears (.freeText b)) ?_
  · refine Returns.bind (P := fun _ xs => xs = [.read b])
      (Returns.emit (fun m => .read m b) rfl) ?_
    rintro _ _ rfl
    exact Returns.pure ⟨rfl, rfl⟩
  · rintro s _ _ ⟨rfl, rfl⟩ ⟨control, inner, rfl⟩
    exact ⟨rfl, control, inner, rfl⟩

theorem coerceText?_returns (h : Host ℓ σ ε) (w : ℓ.Word) :
    Returns h.engine (h.coerceText? w) (Coercion w) := by
  refine Returns.bind (h.askMasked_hears (.toText w)) ?_
  rintro (_ | b) _ ⟨control, inner, rfl⟩
  · exact Returns.pure .thrown
  · refine Returns.bind (h.readBuffer_returns b) ?_
    rintro _ _ ⟨rfl, control', inner', rfl⟩
    exact Returns.pure (.read b)

theorem discardException_returns (h : Host ℓ σ ε) (during : String) :
    Returns h.engine (h.discardException during) fun _ xs => Report during xs := by
  refine Returns.bind h.takeException_hears ?_
  rintro ⟨thrown⟩ _ ⟨control, inner, rfl⟩
  refine Handle.within_returns (P := fun _ xs => ∀ ys, Dropping ⟨thrown⟩ ys → Report during
    (.call ⟨.takeException, control, inner, some thrown⟩ :: (xs ++ ys))) ?_
    fun _ xs ys hx hy => hx ys hy
  refine Returns.bind (h.coerceText?_returns thrown) ?_
  rintro (_ | s) xs hx
  · refine Returns.bind h.takeException_hears ?_
    rintro second _ ⟨control', inner', rfl⟩
    refine Returns.bind (second.drop_returns h) ?_
    intro _ ys hy
    refine Returns.log fun zs hz => ?_
    simpa using Report.unprintable hx hy hz
  · refine Returns.log fun ys hy => ?_
    simpa using Report.printed hx hy

theorem fail_returns (h : Host ℓ σ ε) (during : String) (cause : ProjectionError) :
    Returns h.engine (h.fail (α := α) during cause) fun r xs =>
      r = .error cause ∧ Report during xs := by
  refine Returns.bind (h.discardException_returns during) ?_
  intro _ xs hx
  exact Returns.pure ⟨rfl, by rwa [List.append_nil]⟩

theorem toText_returns (h : Host ℓ σ ε) (w : ℓ.Word) :
    Returns h.engine (h.toText w) (Texting w) := by
  refine Returns.bind (h.coerceText?_returns w) ?_
  rintro (_ | s) xs hx
  · refine Returns.bind (h.discardException_returns "string coercion") ?_
    intro _ ys hy
    refine Returns.pure ?_
    rw [List.append_nil]
    exact .thrown hx hy
  · refine Returns.pure ?_
    rw [List.append_nil]
    exact .text hx

theorem toUnits_returns (h : Host ℓ σ ε) (w : ℓ.Word) :
    Returns h.engine (h.toUnits w) fun r xs => ∃ s, Texting w s xs ∧ r = s.map Utf16.encode := by
  refine Returns.bind (h.toText_returns w) ?_
  intro s xs hx
  exact Returns.pure ⟨s, by rwa [List.append_nil], rfl⟩

/-! ## Projections -/

theorem projectDouble_returns (h : Host ℓ σ ε) {t : Tag} {w : ℓ.Word} (ht : ℓ.tag? w = some t)
    (hn : t = .bigFloat ∨ t = .bigDecimal) :
    Returns h.engine (h.projectDouble t w) (Projection w) := by
  refine Returns.bind (h.askMasked_hears (.toDouble w)) ?_
  rintro (_ | d) _ ⟨control, inner, rfl⟩
  · refine (h.fail_returns "numeric coercion" (.coercion t)).mono ?_
    rintro _ xs ⟨rfl, hx⟩
    exact .doubleThrown ht hn hx
  · exact Returns.pure (.double ht hn)

theorem projectBigInteger_returns (h : Host ℓ σ ε) {w : ℓ.Word} (ht : ℓ.tag? w = some .bigInt) :
    Returns h.engine (h.projectBigInteger .bigInt w) (Projection w) := by
  refine Returns.bind (h.askMasked_hears (.toBigInteger w)) ?_
  rintro (n | _ | _) _ ⟨control, inner, rfl⟩
  · exact Returns.pure (.exact ht)
  · exact Returns.pure (.outOfRange ht)
  · refine (h.fail_returns "numeric coercion" (.coercion .bigInt)).mono ?_
    rintro _ xs ⟨rfl, hx⟩
    exact .integerThrown ht hx

theorem projectObject_returns (h : Host ℓ σ ε) {w : ℓ.Word}
    {inner : ℓ.Word → Exchange ℓ σ ε (Except ProjectionError HostValue)}
    (ht : ℓ.tag? w = some .object)
    (hi : ∀ v, Returns h.engine (inner v) (Projection v)) :
    Returns h.engine (h.projectObject inner w) (Projection w) := by
  refine Returns.bind (h.stringify_hears w) ?_
  rintro ⟨v⟩ _ ⟨control, events, rfl⟩
  by_cases hv : ℓ.isException v = true
  · rw [if_pos (show (Handle.mk v).isException = true from hv)]
    refine Handle.within_returns (h.fail_returns _ _) ?_
    rintro _ xs ys ⟨rfl, hx⟩ hy
    rw [List.singleton_append]
    exact .objectThrown ht hv hx hy
  · rw [if_neg (show ¬ (Handle.mk v).isException = true from hv)]
    refine Returns.bind (P := fun r zs => ∃ xs ys, zs = xs ++ ys ∧ Projection v r xs ∧
      Dropping ⟨v⟩ ys) (Handle.within_returns (hi v) ?_) ?_
    · intro r xs ys hx hy
      exact ⟨xs, ys, rfl, hx, hy⟩
    · rintro r _ ⟨xs, ys, rfl, hx, hy⟩
      refine Returns.pure ?_
      rw [List.append_nil, List.singleton_append]
      exact .object ht (by simpa using hv) hx hy

/-- A word that needs no engine is projected without one. -/
theorem projectWith_alone (h : Host ℓ σ ε)
    (object : ℓ.Word → Exchange ℓ σ ε (Except ProjectionError HostValue)) {w : ℓ.Word}
    {r : Except ProjectionError HostValue} (hw : ℓ.alone? w = some r) :
    h.projectWith object w = (return r) := by
  unfold projectWith
  unfold Layout.alone? at hw
  cases ht : ℓ.tag? w with
  | none =>
    simp only [ht] at hw
    cases hw
    rfl
  | some t => cases t <;> simp only [ht] at hw <;> cases hw <;> rfl

theorem project_alone (h : Host ℓ σ ε) {w : ℓ.Word} {r : Except ProjectionError HostValue}
    (hw : ℓ.alone? w = some r) : h.project w = (return r) := by
  unfold project
  cases h.depth <;> exact h.projectWith_alone _ hw

theorem projectWith_returns (h : Host ℓ σ ε)
    {object : ℓ.Word → Exchange ℓ σ ε (Except ProjectionError HostValue)} (w : ℓ.Word)
    (ho : ℓ.tag? w = some .object → Returns h.engine (object w) (Projection w)) :
    Returns h.engine (h.projectWith object w) (Projection w) := by
  unfold projectWith
  split
  · rename_i t ht
    cases t with
    | string =>
      refine Returns.bind (h.toText_returns w) ?_
      intro r xs hx
      refine Returns.pure ?_
      rw [List.append_nil]
      exact .text ht hx
    | bigFloat => exact h.projectDouble_returns ht (Or.inl rfl)
    | bigDecimal => exact h.projectDouble_returns ht (Or.inr rfl)
    | bigInt => exact h.projectBigInteger_returns ht
    | object => exact ho ht
    | _ => exact Returns.pure (.alone (by rw [Layout.alone?, ht]))
  · rename_i ht
    exact Returns.pure (.alone (by rw [Layout.alone?, ht]))

theorem projectWithin_returns (h : Host ℓ σ ε) (depth : Nat) (w : ℓ.Word) :
    Returns h.engine (h.projectWithin depth w) (Projection w) := by
  induction depth generalizing w with
  | zero =>
    refine h.projectWith_returns w fun _ => ?_
    intro m a events m' hr
    cases hr
  | succ depth ih => exact h.projectWith_returns w fun ht => h.projectObject_returns ht ih

theorem project_returns (h : Host ℓ σ ε) (w : ℓ.Word) :
    Returns h.engine (h.project w) (Projection w) := h.projectWithin_returns h.depth w

/-! ## Embeddings -/

theorem checked_returns (h : Host ℓ σ ε) (during : String) (x : Handle ℓ) :
    Returns h.engine (h.checked during x) fun r xs =>
      (ℓ.isException x.word = false ∧ r = .ok x ∧ xs = []) ∨
      (ℓ.isException x.word = true ∧ r = .error (.exception during) ∧
        ∃ ys zs, Report during ys ∧ Dropping x zs ∧ xs = ys ++ zs) := by
  unfold checked
  split
  · rename_i hx
    refine Handle.within_returns (h.fail_returns _ _) ?_
    rintro _ ys zs ⟨rfl, hy⟩ hz
    exact Or.inr ⟨hx, rfl, ys, zs, hy, hz, rfl⟩
  · rename_i hx
    exact Returns.pure (Or.inl ⟨by simpa [Handle.isException] using hx, rfl, rfl⟩)

theorem embed_returns (h : Host ℓ σ ε) (v : HostValue) :
    Returns h.engine (h.embed v) (Embedding v) := by
  cases v with
  | null => exact Returns.pure (.plain rfl)
  | bool b => exact Returns.pure (.plain rfl)
  | int n => exact Returns.pure (.plain rfl)
  | float d => exact Returns.pure (.plain rfl)
  | text s =>
    refine Returns.bind (h.newText_hears s) ?_
    rintro ⟨w⟩ _ ⟨control, inner, rfl⟩
    refine (h.checked_returns "string construction" ⟨w⟩).mono ?_
    rintro _ _ (⟨hw, rfl, rfl⟩ | ⟨hw, rfl, xs, ys, hx, hy, rfl⟩)
    · exact .text hw
    · rw [List.singleton_append]
      exact .textThrown hw hx hy
  | json v =>
    refine Returns.bind (h.parse_hears v.text) ?_
    rintro ⟨w⟩ _ ⟨control, inner, rfl⟩
    refine (h.checked_returns "JSON.parse" ⟨w⟩).mono ?_
    rintro _ _ (⟨hw, rfl, rfl⟩ | ⟨hw, rfl, xs, ys, hx, hy, rfl⟩)
    · exact .document hw
    · rw [List.singleton_append]
      exact .documentThrown hw hx hy

end Host

end ScriptHost
