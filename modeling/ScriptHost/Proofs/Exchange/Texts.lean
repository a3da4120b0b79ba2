-- Texts in code units, on the way to the engine and on the way back. Units that are a text travel
-- as that text and come back unchanged, and units that are none do not travel at all. What stands
-- alone in a text of the engine is replaced when the host reads it.
import ScriptHost.Proofs.Exchange.Desk
import ScriptHost.Proofs.Exchange.Sample
import ScriptHost.Proofs.Fpu.Guarded
import ScriptHost.Proofs.Text.Surrogates

namespace ScriptHost

variable {ℓ : Layout} {σ ε : Type}

namespace Host

/-! ## From the engine -/

/-- The engine hands out some bytes as the text of a word, and it takes the buffer back when the
host has read it. -/
def HandsOut (h : Host ℓ σ ε) (m : Machine σ) (w : ℓ.Word) (bytes : List UInt8) : Prop :=
  ∃ b inner m', h.engine.answer (.toText w) (h.guarded m) = ⟨.value (some b), inner, m'⟩ ∧
    b.bytes = bytes ∧
    (h.engine.answer (.freeText b) (h.opening.leaving m m')).ending = .value ()

section

variable {h : Host ℓ σ ε} {m : Machine σ} {w : ℓ.Word} {bytes : List UInt8}

theorem ending_readBuffer {b : Buffer} (hf : (h.engine.answer (.freeText b) m).ending = .value ()) :
    (h.readBuffer b m).ending = .value (Utf8.decodeLossy b.bytes) := by
  have hask : (h.ask (.freeText b) m).ending = .value () := hf
  show ((h.ask (.freeText b) m).ending.map fun _ => Utf8.decodeLossy b.bytes) = _
  rw [hask]
  rfl

theorem coerceText?_of_handsOut (hands : h.HandsOut m w bytes) :
    (h.coerceText? w m).ending = .value (some (Utf8.decodeLossy bytes)) := by
  obtain ⟨b, inner, m', hb, rfl, hf⟩ := hands
  unfold coerceText?
  rw [Action.bind_of_value (askMasked_of_value hb)]
  dsimp only
  rw [Action.bind_of_ending (ending_readBuffer hf)]
  rfl

/-- The text of a word is read from the bytes that are handed out. -/
theorem toText_of_handsOut (hands : h.HandsOut m w bytes) :
    (h.toText w m).ending = .value (.ok (Utf8.decodeLossy bytes)) := by
  unfold toText
  rw [Action.bind_of_ending (coerceText?_of_handsOut hands)]
  rfl

theorem toUnits_of_handsOut (hands : h.HandsOut m w bytes) :
    (h.toUnits w m).ending = .value (.ok (Utf16.encode (Utf8.decodeLossy bytes))) := by
  unfold toUnits
  rw [Action.bind_pure_eq, toText_of_handsOut hands]
  rfl

end

/-! ## To the engine -/

/-- What comes of having a text made: one call, whose reply is the value. -/
def making (h : Host ℓ σ ε) (s : String) (m : Machine σ) :
    Outcome (Machine σ) (Event ℓ ε) (Except ProjectionError (Handle ℓ)) :=
  let out := h.engine.answer (.newText s) m
  ⟨out.ending.map fun w => .ok ⟨w⟩,
    [.call ⟨.newText s, m.control, out.events, out.ending.value?⟩], out.state⟩

theorem ending_making (h : Host ℓ σ ε) {s : String} {m : Machine σ} {w : ℓ.Word}
    (hw : (h.engine.answer (.newText s) m).ending = .value w) :
    (h.making s m).ending = .value (.ok ⟨w⟩) := by
  unfold making
  dsimp only
  rw [hw]
  rfl

theorem newUnits_encode (h : Host ℓ σ ε) (s : String) (m : Machine σ) :
    h.newUnits (Utf16.encode s) m = h.making s m := by
  have hs : Utf16.decode? (Utf16.encode s) = some s := (Utf16.decode?_eq_some_iff _ s).mpr rfl
  have hmade : h.newText s m = ⟨(h.ask (.newText s) m).ending.map Handle.mk,
      (h.ask (.newText s) m).events, (h.ask (.newText s) m).state⟩ :=
    Action.bind_pure_eq (h.ask (.newText s)) Handle.mk m
  unfold newUnits
  rw [hs]
  dsimp only
  rw [Action.bind_pure_eq, hmade, Ending.map_map]
  rfl

theorem newUnits_of_not_paired (h : Host ℓ σ ε) {us : List UInt16} (hus : ¬ Utf16.Paired us)
    (m : Machine σ) : h.newUnits us m = ⟨.value (.error .utf16), [], m⟩ := by
  unfold newUnits
  rw [(Utf16.decode?_eq_none_iff us).mpr hus]
  rfl

theorem ending_making_ne (h : Host ℓ σ ε) (s : String) (m : Machine σ) (e : ProjectionError) :
    (h.making s m).ending ≠ .value (.error e) := by
  unfold making
  dsimp only
  generalize (h.engine.answer (.newText s) m).ending = ending
  cases ending <;> simp [Ending.map]

end Host

/-- Units among which no surrogate stands alone are the units of one text. -/
theorem Utf16.Paired.exists_text {us : List UInt16} (hus : Utf16.Paired us) :
    ∃ s, Utf16.encode s = us ∧ ∀ s', Utf16.encode s' = us → s' = s := by
  cases hs : Utf16.decode? us with
  | none => exact absurd hus ((Utf16.decode?_eq_none_iff us).mp hs)
  | some s =>
    refine ⟨s, (Utf16.decode?_eq_some_iff us s).mp hs, fun s' hs' => ?_⟩
    rw [← Utf16.decode?_eq_some_iff, hs] at hs'
    exact (Option.some.inj hs').symm

/-! ## There and back -/

namespace Host

/-- Units are refused, without a call, exactly when a surrogate stands alone. All others are made
the text that they are, in one call, and if that text is handed out again, text and units come
back as they were. So does every other text, whose units are always taken. -/
theorem units_travel_as_their_text (h : Host ℓ σ ε) :
    (∀ us m, ((h.newUnits us m).ending = .value (.error .utf16) ↔ ¬ Utf16.Paired us) ∧
      (¬ Utf16.Paired us → h.newUnits us m = ⟨.value (.error .utf16), [], m⟩)) ∧
    (∀ us, Utf16.Paired us →
      ∃ s, (Utf16.encode s = us ∧ ∀ s', Utf16.encode s' = us → s' = s) ∧
        (∀ m, h.newUnits us m = h.making s m) ∧
        ∀ w m, h.HandsOut m w (Utf8.encode s) →
          (h.toText w m).ending = .value (.ok s) ∧ (h.toUnits w m).ending = .value (.ok us)) ∧
    (∀ s w m, h.HandsOut m w (Utf8.encode s) →
      ∃ us, (h.toUnits w m).ending = .value (.ok us) ∧ ∀ m', h.newUnits us m' = h.making s m') := by
  refine ⟨fun us m => ⟨⟨?_, ?_⟩, fun hus => h.newUnits_of_not_paired hus m⟩, ?_, ?_⟩
  · intro hend hus
    obtain ⟨s, rfl, -⟩ := hus.exists_text
    rw [h.newUnits_encode] at hend
    exact h.ending_making_ne s m _ hend
  · intro hus
    rw [h.newUnits_of_not_paired hus]
  · intro us hus
    obtain ⟨s, rfl, hunique⟩ := hus.exists_text
    refine ⟨s, ⟨rfl, hunique⟩, h.newUnits_encode s, fun w m hands => ⟨?_, ?_⟩⟩
    · rw [toText_of_handsOut hands, Utf8.decodeLossy_encode]
    · rw [toUnits_of_handsOut hands, Utf8.decodeLossy_encode]
  · intro s w m hands
    refine ⟨Utf16.encode s, ?_, h.newUnits_encode s⟩
    rw [toUnits_of_handsOut hands, Utf8.decodeLossy_encode]

/-- An engine that keeps texts hands out the ones that it keeps. -/
theorem handsOut_of_keeps {h : Host ℓ σ ε} {k : Keeper σ} (hk : h.engine.Keeps k) {m : Machine σ}
    {w : ℓ.Word} {s : String} {n : Int32} (ht : ℓ.tag? w = some .string)
    (hb : (k.store m).blocks (ℓ.payload w) = some (.text s, n)) :
    h.HandsOut m w (Utf8.encode s) := by
  obtain ⟨b, ha, hbytes, hstore⟩ := hk.toText w s n (h.guarded m) ht hb
  cases hr : h.engine.answer (.toText w) (h.guarded m) with
  | mk ending inner m' =>
    rw [hr] at ha hstore
    cases ha
    -- The control state is no part of the store, so the guard is not seen in it.
    have hleft : k.store (h.opening.leaving m m') = (k.store m).lend b := by
      unfold Fpu.Opening.leaving
      split <;> exact hstore
    refine ⟨b, inner, m', hr, hbytes, (hk.freeText b _ ?_).1⟩
    simp [hleft, Store.lend]

/-- A zero and a pair of surrogates go to the desk in a text and come back. Two surrogates in the
wrong order do not even go. -/
theorem units_with_a_pair_come_back_from_desk :
    let h := Host.desk .boxed
    let s := String.ofList ['h', '\x00', Char.ofNat 0x1F600]
    let made := h.making s .cleared
    ¬ Utf16.Paired [0xDE00, 0xD83D] ∧ Utf16.Paired [0x68, 0, 0xD83D, 0xDE00] ∧
      h.newUnits [0xDE00, 0xD83D] .cleared = ⟨.value (.error .utf16), [], .cleared⟩ ∧
      h.newUnits [0x68, 0, 0xD83D, 0xDE00] .cleared = made ∧
      ∃ w, made.ending = .value (.ok ⟨w⟩) ∧ h.HandsOut made.state w (Utf8.encode s) ∧
        (h.toUnits w made.state).ending = .value (.ok [0x68, 0, 0xD83D, 0xDE00]) := by
  intro h s made
  have hlaw := units_travel_as_their_text h
  have halone : ¬ Utf16.Paired [0xDE00, 0xD83D] := by decide
  have hpaired : Utf16.Paired [0x68, 0, 0xD83D, 0xDE00] := by decide
  obtain ⟨s', ⟨-, hunique⟩, hmade, hback⟩ := hlaw.2.1 _ hpaired
  obtain rfl : s = s' := hunique s (by decide)
  obtain ⟨w, hw, hmakes⟩ := (Engine.desk_keeps .boxed).newText s .cleared (by decide)
  have hands : h.HandsOut made.state w (Utf8.encode s) := by
    refine handsOut_of_keeps (n := 1) (Engine.desk_keeps .boxed) hmakes.tag ?_
    rw [show made.state = (h.engine.answer (.newText s) .cleared).state from rfl]
    exact hmakes.store ▸ Store.blocks_allocate _ _ _
  exact ⟨halone, hpaired, (hlaw.1 _ _).2 halone, hmade _, w, h.ending_making hw, hands,
    (hback w _ hands).2⟩

end Host

/-! ## What stands alone -/

/-- An engine in which some units are the text of every value. -/
def Engine.uttering (ℓ : Layout) (us : List UInt16) : Engine ℓ Bool ε where
  answer
    | .toText _ => fun m => ⟨.value (some ⟨16, Utf16.generalized us⟩), [], m⟩
    | r => (Engine.sole ℓ).answer r

theorem handsOut_uttering (us : List UInt16) (m : Machine Bool) (w : ℓ.Word) :
    (⟨Engine.uttering ℓ us, .standard, 0⟩ : Host ℓ Bool ε).HandsOut m w
      (Utf16.generalized us) := ⟨_, _, _, rfl, rfl, rfl⟩

namespace Host

/-- The text of any units can be read. For each surrogate that stands alone there are three
U+FFFD, one for each byte of it, and every other unit is as it was. -/
theorem lone_surrogates_are_replaced_by_three (h : Host ℓ σ ε) {m : Machine σ} {w : ℓ.Word}
    {us : List UInt16} (hands : h.HandsOut m w (Utf16.generalized us)) :
    (∃ s, (h.toText w m).ending = .value (.ok s) ∧ Utf16.encode s = Utf16.mended 3 us) ∧
      (h.toUnits w m).ending = .value (.ok (Utf16.mended 3 us)) ∧
      (Utf16.mended 3 us).length = us.length + 2 * Utf16.aloneCount us := by
  have hread := Utf16.encode_decodeLossy_generalized us
  refine ⟨⟨_, toText_of_handsOut hands, hread⟩, ?_, Utf16.length_mended 2 us⟩
  rw [toUnits_of_handsOut hands, hread]

/-- A high surrogate stands alone before a pair. -/
theorem surrogate_before_a_pair_is_replaced :
    let h : Host .boxed Bool Unit := ⟨Engine.uttering .boxed [0xD800, 0xD83D, 0xDE00], .standard, 0⟩
    h.HandsOut .fresh (Layout.sole .boxed) (Utf16.generalized [0xD800, 0xD83D, 0xDE00]) ∧
      (h.toUnits (Layout.sole .boxed) .fresh).ending =
        .value (.ok [0xFFFD, 0xFFFD, 0xFFFD, 0xD83D, 0xDE00]) := by
  intro h
  have hands : h.HandsOut .fresh (Layout.sole .boxed)
      (Utf16.generalized [0xD800, 0xD83D, 0xDE00]) := handsOut_uttering _ _ _
  exact ⟨hands, (h.lone_surrogates_are_replaced_by_three hands).2.1⟩

/-- A surrogate that stands alone is not replaced by one U+FFFD, so the units that are read are
not as many as the text has. -/
theorem lone_surrogates_are_not_replaced_by_one :
    ¬ ∀ (us : List UInt16) (h : Host .boxed Bool Unit) (m : Machine Bool) (w : Layout.boxed.Word),
      h.HandsOut m w (Utf16.generalized us) →
        (h.toUnits w m).ending = .value (.ok (Utf16.mended 1 us)) := by
  intro hone
  have hthree := toUnits_of_handsOut
    (handsOut_uttering (ε := Unit) [0xD800] .fresh (Layout.sole .boxed))
  rw [hone [0xD800] _ _ _ (handsOut_uttering _ _ _), Utf16.encode_decodeLossy_generalized] at hthree
  have hunits := Except.ok.inj (Ending.value.inj hthree)
  exact absurd hunits (by decide)

end Host

end ScriptHost
