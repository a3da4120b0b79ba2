-- Trips of host values through an engine and back. The engine keeps the value while it is
-- away, and when the value is back everything that was allocated for it has been freed.
import ScriptHost.Proofs.Exchange.Desk

namespace ScriptHost

variable {ℓ : Layout} {σ ε : Type} {h : Host ℓ σ ε} {k : Keeper σ} {s : Store}

/-! ## References and texts -/

theorem Exchange.release_leaves {w : ℓ.Word} {c : Content} {n : Int32}
    (hc : ℓ.isCounted w = true)
    (hb : (s.release (ℓ.payload w)).blocks (ℓ.payload w) = some (c, n)) :
    Leaves k s (Exchange.release w : Exchange ℓ σ ε Bool) fun last s' =>
      last = (n == 0) ∧ s' = s.release (ℓ.payload w) := by
  rintro m rfl
  rw [← k.store_release m hc] at hb ⊢
  have hcount := k.count?_of_blocks hc hb
  refine ⟨(m.release ℓ w).count? ℓ w == some 0, rfl, ?_, rfl⟩
  simp [hcount]

theorem Exchange.release_leaves_alone {w : ℓ.Word} (hc : ℓ.isCounted w = false) :
    Leaves k s (Exchange.release w : Exchange ℓ σ ε Bool) fun last s' => last = false ∧ s' = s := by
  have hm : ∀ m : Machine σ, m.release ℓ w = m := fun m => by simp [Machine.release, hc]
  rintro m rfl
  refine ⟨(m.release ℓ w).count? ℓ w == some 0, rfl, ?_, ?_⟩
  · simp [Machine.count?, hc]
  · exact congrArg k.store (hm m)

namespace Handle

/-- The last handle on a block has the block freed. -/
theorem drop_leaves (hk : h.engine.Keeps k) {x : Handle ℓ} {s' : Store} {t : Tag} {c : Content}
    (hx : s.Makes s' t x.word c) (ht : t.isCounted = true) (hr : 0 < s.room) :
    Leaves k s' (x.drop h) fun _ s'' => s'' = s := by
  have hc : ℓ.isCounted x.word = true := (ℓ.isCounted_of_tag? hx.tag).trans ht
  obtain ⟨-, hf, rfl⟩ := hx
  refine Leaves.bind (Exchange.release_leaves hc (Store.blocks_release_allocate _ _ c)) ?_
  rintro _ _ ⟨rfl, rfl⟩
  rw [if_pos (by rfl)]
  refine Leaves.bind (Exchange.log_leaves _ _) ?_
  rintro _ _ rfl
  intro m hm
  obtain ⟨ha, hs⟩ := hk.freeValue x.word c m hc (by rw [hm, Store.blocks_release_allocate])
  refine ⟨(), ha, ?_⟩
  rw [← Store.free_release_allocate c hf hr, ← hm]
  exact hs

theorem drop_leaves_alone {x : Handle ℓ} (hc : ℓ.isCounted x.word = false) :
    Leaves k s (x.drop h) fun _ s' => s' = s := by
  refine Leaves.bind (Exchange.release_leaves_alone hc) ?_
  rintro _ _ ⟨rfl, rfl⟩
  exact Leaves.pure rfl

/-- A body that has the only handle on a new block leaves what was there before the block. -/
theorem within_leaves (hk : h.engine.Keeps k) {x : Handle ℓ} {s' : Store} {t : Tag} {c : Content}
    (hx : s.Makes s' t x.word c) (ht : t.isCounted = true) (hr : 0 < s.room) {α : Type}
    {body : Exchange ℓ σ ε α} {a : α} (hb : Leaves k s' body fun r s'' => r = a ∧ s'' = s') :
    Leaves k s' (x.within h body) fun r s'' => r = a ∧ s'' = s := by
  refine Leaves.ensuring hb ?_
  rintro _ _ ⟨rfl, rfl⟩
  refine (drop_leaves hk hx ht hr).mono ?_
  rintro _ _ rfl
  exact ⟨rfl, rfl⟩

end Handle

namespace Host

/-- A buffer that is read is given back. -/
theorem readBuffer_leaves (hk : h.engine.Keeps k) (b : Buffer) :
    Leaves k (s.lend b) (h.readBuffer b) fun t s' => t = Utf8.decodeLossy b.bytes ∧ s' = s := by
  have hread : Leaves k (s.lend b) (do
      Action.emit (.read b)
      return Utf8.decodeLossy b.bytes : Exchange ℓ σ ε String) fun t s' =>
        t = Utf8.decodeLossy b.bytes ∧ s' = s.lend b := fun m hm => ⟨_, rfl, rfl, hm⟩
  refine Leaves.ensuring hread ?_
  rintro _ _ ⟨rfl, rfl⟩ m hm
  obtain ⟨ha, hs⟩ := hk.freeText b m (by simp [hm, Store.lend])
  refine ⟨(), ha, rfl, ?_⟩
  rw [← s.takeBack_lend b, ← hm]
  exact hs

/-- The text of a block is read as it was written, and the buffer is given back. -/
theorem toText_leaves (hk : h.engine.Keeps k) {w : ℓ.Word} {t : String} {n : Int32}
    (ht : ℓ.tag? w = some .string) (hb : s.blocks (ℓ.payload w) = some (.text t, n)) :
    Leaves k s (h.toText w) fun r s' => r = .ok t ∧ s' = s := by
  have hcoerce : Leaves k s (h.coerceText? w) fun r s' => r = some t ∧ s' = s := by
    have hask : Leaves k s (h.ask (.toText w)) fun r s' =>
        ∃ b, r = some b ∧ b.bytes = Utf8.encode t ∧ s' = s.lend b := by
      rintro m rfl
      obtain ⟨b, ha, hbytes, hs⟩ := hk.toText w t n m ht hb
      exact ⟨some b, ha, b, rfl, hbytes, hs⟩
    refine Leaves.bind (askMasked_leaves hask) ?_
    rintro _ _ ⟨b, rfl, hbytes, rfl⟩
    refine Leaves.bind (readBuffer_leaves hk b) ?_
    rintro _ _ ⟨rfl, rfl⟩
    refine Leaves.pure ⟨?_, rfl⟩
    rw [hbytes, Utf8.decodeLossy_encode]
  refine Leaves.bind hcoerce ?_
  rintro _ _ ⟨rfl, rfl⟩
  exact Leaves.pure ⟨rfl, rfl⟩

/-! ## From the script -/

theorem projectWith_leaves_text (hk : h.engine.Keeps k)
    (object : ℓ.Word → Exchange ℓ σ ε (Except ProjectionError HostValue)) {w : ℓ.Word}
    {t : String} {n : Int32} (ht : ℓ.tag? w = some .string)
    (hb : s.blocks (ℓ.payload w) = some (.text t, n)) :
    Leaves k s (h.projectWith object w) fun r s' => r = .ok (.text t) ∧ s' = s := by
  unfold projectWith
  simp only [ht]
  refine Leaves.bind (toText_leaves hk ht hb) ?_
  rintro _ _ ⟨rfl, rfl⟩
  exact Leaves.pure ⟨rfl, rfl⟩

theorem projectWithin_leaves_text (hk : h.engine.Keeps k) (depth : Nat) {w : ℓ.Word}
    {t : String} {n : Int32} (ht : ℓ.tag? w = some .string)
    (hb : s.blocks (ℓ.payload w) = some (.text t, n)) :
    Leaves k s (h.projectWithin depth w) fun r s' => r = .ok (.text t) ∧ s' = s := by
  cases depth <;> exact projectWith_leaves_text hk _ ht hb

theorem isException_of_makes {x : Handle ℓ} {s' : Store} {t : Tag} {c : Content}
    (hx : s.Makes s' t x.word c) (ht : t ≠ .exception) : x.isException = false := by
  rw [Handle.isException, ← Bool.not_eq_true, ℓ.isException_iff, hx.tag]
  simpa using ht

/-- An object is read as the document that its text is read as, and the block of the text is
freed. -/
theorem projectObject_leaves (hk : h.engine.Keeps k) (depth : Nat) {w : ℓ.Word} {d : Json}
    {t : String} {n : Int32} (ht : ℓ.tag? w = some .object)
    (hb : s.blocks (ℓ.payload w) = some (.document t, n)) (hr : 0 < s.room)
    (hd : Json.parse? t = some d) :
    Leaves k s (h.projectObject (h.projectWithin depth) w) fun r s' =>
      r = .ok (.json d) ∧ s' = s := by
  have hask : Leaves k s (h.ask (.stringify w)) fun x s' => s.Makes s' .string x (.text t) := by
    rintro m rfl
    exact hk.stringify w t n m ht hb hr
  have hwrite : Leaves k s (h.stringify w) fun x s' => s.Makes s' .string x.word (.text t) :=
    Leaves.bind (askMasked_leaves hask) fun _ _ hx => Leaves.pure hx
  refine Leaves.bind hwrite ?_
  intro x s' hx
  rw [isException_of_makes hx (by simp), if_neg (by simp)]
  have hproject := projectWithin_leaves_text hk depth hx.tag (hx.store ▸ s.blocks_allocate _ _)
  refine Leaves.bind (Handle.within_leaves hk hx rfl hr hproject) ?_
  rintro _ _ ⟨rfl, rfl⟩
  refine Leaves.pure ⟨?_, rfl⟩
  simp [Except.bind, document, hd]

/-! ## To the script -/

theorem embed_plain (h : Host ℓ σ ε) {v : HostValue} {w : ℓ.Word} (hw : ℓ.plain? v = some w) :
    h.embed v = (return .ok ⟨w⟩) := by
  cases v <;> cases hw <;> rfl

/-- A new block that is no exception is taken as it is. -/
theorem checked_leaves {during : String} {body : Exchange ℓ σ ε (Handle ℓ)} {t : Tag}
    {c : Content} (hb : Leaves k s body fun x s' => s.Makes s' t x.word c) (ht : t ≠ .exception) :
    Leaves k s (do h.checked during (← body)) fun r s' =>
      ∃ x, r = .ok x ∧ s.Makes s' t x.word c := by
  refine Leaves.bind hb ?_
  intro x s' hx
  unfold checked
  rw [isException_of_makes hx ht, if_neg (by simp)]
  exact Leaves.pure ⟨x, rfl, hx⟩

theorem embed_leaves_text (hk : h.engine.Keeps k) (t : String) (hr : 0 < s.room) :
    Leaves k s (h.embed (.text t)) fun r s' =>
      ∃ x, r = .ok x ∧ s.Makes s' .string x.word (.text t) := by
  have hask : Leaves k s (h.ask (.newText t)) fun x s' => s.Makes s' .string x (.text t) := by
    rintro m rfl
    exact hk.newText t m hr
  exact checked_leaves (Leaves.bind hask fun _ _ hx => Leaves.pure hx) (by simp)

theorem embed_leaves_document (hk : h.engine.Keeps k) {d : Json} (hd : d.Compound)
    (hr : 0 < s.room) :
    Leaves k s (h.embed (.json d)) fun r s' =>
      ∃ x, r = .ok x ∧ s.Makes s' .object x.word (.document d.text) := by
  have hask : Leaves k s (h.ask (.parse d.text)) fun x s' =>
      s.Makes s' .object x (.document d.text) := by
    rintro m rfl
    exact hk.parse d m hd hr
  exact checked_leaves (Leaves.bind (askMasked_leaves hask) fun _ _ hx => Leaves.pure hx) (by simp)

/-! ## There and back -/

/-- From every machine with this store the value goes over, comes back as `v'`, and leaves
nothing behind. -/
def ComesBack (h : Host ℓ σ ε) (k : Keeper σ) (s : Store) (v v' : HostValue) : Prop :=
  Leaves k s (h.embed v) fun r s' => ∃ x, r = .ok x ∧
    Leaves k s' (h.projectOwned x) fun r s'' => r = .ok v' ∧ s'' = s

theorem comesBack_plain {v v' : HostValue} {w : ℓ.Word} (hv : ℓ.plain? v = some w)
    (hw : ℓ.alone? w = some (.ok v')) : h.ComesBack k s v v' := by
  rw [ComesBack, h.embed_plain hv]
  refine Leaves.pure ⟨⟨w⟩, rfl, ?_⟩
  rw [projectOwned, h.project_alone hw]
  refine Leaves.ensuring (P := fun r s' => r = .ok v' ∧ s' = s) (Leaves.pure ⟨rfl, rfl⟩) ?_
  rintro _ _ ⟨rfl, rfl⟩
  refine (Handle.drop_leaves_alone (Layout.isCounted_of_plain? hv)).mono ?_
  rintro _ _ rfl
  exact ⟨rfl, rfl⟩

theorem comesBack_text (hk : h.engine.Keeps k) (t : String) (hr : 0 < s.room) :
    h.ComesBack k s (.text t) (.text t) := by
  refine (embed_leaves_text hk t hr).mono ?_
  rintro _ s' ⟨x, rfl, hx⟩
  have hproject := projectWithin_leaves_text hk h.depth hx.tag (hx.store ▸ s.blocks_allocate _ _)
  exact ⟨x, rfl, Handle.within_leaves hk hx rfl hr hproject⟩

theorem comesBack_document (hk : h.engine.Keeps k) (hdepth : 0 < h.depth) {d : Json}
    (hd : d.Compound) (hread : Json.parse? d.text = some d) (hr : 2 ≤ s.room) :
    h.ComesBack k s (.json d) (.json d) := by
  refine (embed_leaves_document hk hd (by omega)).mono ?_
  rintro _ s' ⟨x, rfl, hx⟩
  -- Beside the object there has to be memory for the text that is written for it.
  have hroom : 0 < s'.room := by
    rw [hx.store]
    show 0 < s.room - 1
    omega
  have hproject : Leaves k s' (h.project x.word) fun r s'' => r = .ok (.json d) ∧ s'' = s' := by
    obtain ⟨depth, hdepth⟩ := Nat.exists_eq_succ_of_ne_zero hdepth.ne'
    unfold project
    rw [hdepth]
    unfold projectWithin projectWith
    simp only [hx.tag]
    exact projectObject_leaves hk depth hx.tag (hx.store ▸ s.blocks_allocate _ _) hroom hread
  exact ⟨x, rfl, Handle.within_leaves hk hx rfl (by omega) hproject⟩

theorem exists_comesBack (hk : h.engine.Keeps k) (hdepth : 0 < h.depth) {v : HostValue}
    (hv : v.Travels) (hr : 2 ≤ s.room) : ∃ v', v.Normal v' ∧ h.ComesBack k s v v' := by
  cases hp : ℓ.plain? v with
  | some w =>
    obtain ⟨v', hn, hw⟩ := ℓ.alone?_of_plain? hp
    exact ⟨v', hn, comesBack_plain hp hw⟩
  | none =>
    cases v with
    | text t => exact ⟨_, .text t, comesBack_text hk t (by omega)⟩
    | json d => exact ⟨_, .document hv.1, comesBack_document hk hdepth hv.1 hv.2 hr⟩
    | null => cases hp
    | bool b => cases hp
    | int n => cases hp
    | float d => cases hp

/-- A host value comes back from the script in its normal form, which a second trip does not
change. For the zero with a sign and the infinities this is the value itself. Every block that was
made on the way has been freed, and no buffer is out. -/
theorem host_values_come_back (h : Host ℓ σ ε) {k : Keeper σ} (hk : h.engine.Keeps k)
    (hdepth : 0 < h.depth) {v : HostValue} (hv : v.Travels) (m : Machine σ)
    (hr : 2 ≤ (k.store m).room) :
    ∃ x v', v.Normal v' ∧ (∀ u, v.Normal u → u = v') ∧ (v.Special → v' = v) ∧
      (h.embed v m).ending = .value (.ok x) ∧
      (h.projectOwned x (h.embed v m).state).ending = .value (.ok v') ∧
      k.store (h.projectOwned x (h.embed v m).state).state = k.store m ∧
      v'.Normal v' ∧ h.ComesBack k (k.store m) v' v' := by
  obtain ⟨v', hn, hback⟩ := exists_comesBack hk hdepth hv hr
  obtain ⟨_, hembed, x, rfl, hrest⟩ := hback m rfl
  obtain ⟨_, hproject, rfl, hstore⟩ := hrest _ rfl
  obtain ⟨u, hu, hagain⟩ := exists_comesBack hk hdepth (hn.travels hv) hr
  rw [hu.unique hn.again] at hagain
  exact ⟨x, v', hn, fun u hu => hu.unique hn, fun hs => hn.unique (.of_special hs), hembed,
    hproject, hstore, hn.again, hagain⟩

theorem sample_comes_back_from_desk :
    ∃ x, ((Host.desk .strict).embed (.json .sample) .cleared).ending = .value (.ok x) ∧
      ((Host.desk .strict).projectOwned x
        ((Host.desk .strict).embed (.json .sample) .cleared).state).ending =
          .value (.ok (.json .sample)) ∧
      Desk.keeper.store ((Host.desk .strict).projectOwned x
        ((Host.desk .strict).embed (.json .sample) .cleared).state).state =
          Desk.keeper.store .cleared := by
  obtain ⟨x, v', -, hunique, -, hembed, hproject, hstore, -⟩ := host_values_come_back
    (Host.desk .strict) (Engine.desk_keeps .strict) Nat.one_pos Json.sample_travels .cleared
    (by decide)
  cases hunique _ (.document (.members _))
  exact ⟨x, hembed, hproject, hstore⟩

end Host

end ScriptHost
