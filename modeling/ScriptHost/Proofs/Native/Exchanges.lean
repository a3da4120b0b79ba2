-- What the host does with the pointers of a library. A buffer that comes with a text goes back as
-- soon as it is read, so between the doings of the host no more is out than the instance.
import ScriptHost.Proofs.Exchange.Discipline
import ScriptHost.Proofs.Exchange.Ledger
import ScriptHost.Proofs.Native.Requests

namespace ScriptHost.Native

variable {ℓ : Layout} {σ α : Type}

/-! ## What an exchange does with a library -/

/-- What is done with the library in an event of an exchange. -/
def uses : ScriptHost.Event ℓ (Event ℓ) → List (Event ℓ)
  | .call c => c.inner
  | .read b => [.read b]
  | .install _ => []
  | .retain _ => []
  | .release _ _ => []
  | .log _ => []

/-- Exchanges that have done all they do in keeping with the protocol, also where they abort.
What was out before is out again afterwards. -/
def upkeep (owner : σ → UInt64 → Option UInt64) (s : Held) : Discipline ℓ σ (Event ℓ) where
  whole m xs m' := Owns owner s m → Owns owner s m' ∧ Follows s (xs.flatMap uses) s
  cut m xs := Owns owner s m → Follows s (xs.flatMap uses) s
  nil _ := fun hm => ⟨hm, .done⟩
  append h h' := by
    intro hm
    obtain ⟨hmid, hx⟩ := h hm
    obtain ⟨hlast, hy⟩ := h' hmid
    rw [List.flatMap_append]
    exact ⟨hlast, hx.append hy⟩
  append_cut h h' := by
    intro hm
    obtain ⟨hmid, hx⟩ := h hm
    rw [List.flatMap_append]
    exact hx.append (h' hmid)
  cut_of_whole h := fun hm => (h hm).2

section

variable {owner : σ → UInt64 → Option UInt64} {s : Held}

/-- An exchange that leads back to what was out before. -/
theorem keeps_of_leads {body : Exchange ℓ σ (Event ℓ) α}
    (h : Leads uses owner s body fun _ s' => s' = s) : (upkeep owner s).Keeps body := by
  apply Discipline.Keeps.of_whole
  intro m hm
  obtain ⟨a, xs, m', _, hb, rfl, hm', hx⟩ := h m hm
  rw [hb]
  exact ⟨hm', hx⟩

theorem install_leads (c : ControlState) :
    Leads uses owner s (Fpu.install c : Exchange ℓ σ (Event ℓ) Unit) fun _ s' => s' = s :=
  .idle fun _ => ⟨_, _, _, rfl, rfl, rfl⟩

theorem newGuard_leads (settings : Settings) :
    Leads uses owner s (Fpu.Guard.new settings : Exchange ℓ σ (Event ℓ) Fpu.Guard)
      fun _ s' => s' = s := by
  unfold Fpu.Guard.new
  split
  · exact .idle fun _ => ⟨_, _, _, rfl, rfl, rfl⟩
  · exact .pure rfl

/-- A guard does nothing with the library. -/
theorem withMasked_leads (settings : Settings) {body : Exchange ℓ σ (Event ℓ) α}
    {Q : α → Held → Prop} (h : Leads uses owner s body Q) :
    Leads uses owner s (Fpu.withMasked settings body) Q := by
  apply (newGuard_leads settings).bind
  rintro g _ rfl
  apply h.ensuring
  intro a s' hq
  unfold Fpu.Guard.close
  split
  · exact (install_leads _).mono fun _ _ hs => hs ▸ hq
  · exact .pure hq

end

/-! ## The host over an instance -/

section

variable {lib : Library ℓ σ} {owner : σ → UInt64 → Option UInt64} {x : Instance}
  {h : Host ℓ σ (Event ℓ)} (hl : lib.Remembers owner) (he : h.engine = x.engine lib)
include hl he

theorem ask_leads (r : ScriptHost.Request ℓ) :
    Leads uses owner (x.heldBefore r) (h.ask r) fun reply s' => s' = x.heldAfter r reply := by
  intro m hm
  obtain ⟨a, xs, m', s', ha, hq, hm', hx⟩ := x.answer_leads hl r m hm
  refine ⟨a, [.call ⟨r, m.control, xs, some a⟩], m', s', ?_, hq, hm', ?_⟩
  · unfold Host.ask
    rw [he]
    simp only [Instance.engine, ha, Ending.value?]
  · simpa [uses, each] using hx

/-- A buffer that was handed out is read, and then it is taken back. -/
theorem readBuffer_leads (b : Buffer) :
    Leads uses owner (x.lending [b]) (h.readBuffer b) fun _ s' => s' = x.held := by
  have hread : Leads uses owner (x.lending [b])
      (Action.emit (.read b) : Exchange ℓ σ (Event ℓ) Unit) fun _ s' => s' = x.lending [b] := by
    intro m hm
    exact ⟨_, _, _, _, rfl, rfl, hm, .read (List.mem_singleton_self b) .done⟩
  apply Leads.ensuring (Q := fun _ s' => s' = x.lending [b])
  · apply hread.bind
    rintro _ _ rfl
    exact .pure rfl
  · rintro _ _ rfl
    exact ask_leads hl he (.freeText b)

theorem coerceText?_leads (w : ℓ.Word) :
    Leads uses owner x.held (h.coerceText? w) fun _ s' => s' = x.held := by
  apply (withMasked_leads h.settings (ask_leads hl he (.toText w))).bind
  rintro text _ rfl
  cases text with
  | none => exact .pure rfl
  | some b =>
    apply (readBuffer_leads hl he b).bind
    rintro _ _ rfl
    exact .pure rfl

/-- Each thing that the host does by itself leads back to what was out before. -/
theorem upkeep_heeds : (upkeep owner x.held).Heeds h where
  retain m w hm := ⟨hm.congr (m.inner_retain w), .done⟩
  release m w hm := ⟨hm.congr (m.inner_release w), .done⟩
  log _ _ hm := ⟨hm, .done⟩
  freeValue w := keeps_of_leads (ask_leads hl he (.freeValue w))
  takeException := keeps_of_leads (ask_leads hl he .takeException)
  newText text := keeps_of_leads (ask_leads hl he (.newText text))
  coerceText? w := keeps_of_leads (coerceText?_leads hl he w)
  eval source file := keeps_of_leads (withMasked_leads _ (ask_leads hl he (.eval source file)))
  parse text := keeps_of_leads (withMasked_leads _ (ask_leads hl he (.parse text)))
  stringify w := keeps_of_leads (withMasked_leads _ (ask_leads hl he (.stringify w)))
  toDouble w := keeps_of_leads (withMasked_leads _ (ask_leads hl he (.toDouble w)))
  toBigInteger w := keeps_of_leads (withMasked_leads _ (ask_leads hl he (.toBigInteger w)))

end

end ScriptHost.Native
