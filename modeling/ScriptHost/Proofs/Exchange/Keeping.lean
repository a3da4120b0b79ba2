-- Engines that keep texts and documents for the host. What such an engine keeps is seen as a
-- store of blocks and buffers, and a rule for each way to build an exchange says what the
-- exchange gives and what it leaves in the store.
import ScriptHost.Proofs.Exchange.Normal
import ScriptHost.Proofs.Text.Utf8

namespace ScriptHost

variable {ℓ : Layout} {σ ε α β : Type}

/-! ## Stores -/

/-- What a block holds for the host. -/
inductive Content
  | text (s : String)
  /-- An array or an object, with the JSON text that is written for it. -/
  | document (text : String)

/-- What an engine keeps for the host. -/
@[ext]
structure Store where
  /-- The blocks that are alive, each with its count. -/
  blocks : UInt64 → Option (Content × Int32)
  /-- The buffers that are out. -/
  buffers : List Buffer
  /-- For how many more blocks there is memory. -/
  room : Nat

namespace Store

/-- A new block with one reference. -/
def allocate (s : Store) (a : UInt64) (c : Content) : Store :=
  { s with
    blocks := fun b => if b = a then some (c, 1) else s.blocks b
    room := s.room - 1 }

/-- One reference to a block less. -/
def release (s : Store) (a : UInt64) : Store :=
  { s with
    blocks := fun b => if b = a then (s.blocks b).map fun (c, n) => (c, n - 1) else s.blocks b }

def free (s : Store) (a : UInt64) : Store :=
  { s with
    blocks := fun b => if b = a then none else s.blocks b
    room := s.room + 1 }

def lend (s : Store) (b : Buffer) : Store := { s with buffers := b :: s.buffers }

def takeBack (s : Store) (b : Buffer) : Store := { s with buffers := s.buffers.erase b }

@[simp] theorem blocks_allocate (s : Store) (a : UInt64) (c : Content) :
    (s.allocate a c).blocks a = some (c, 1) := by simp [allocate]

@[simp] theorem blocks_release_allocate (s : Store) (a : UInt64) (c : Content) :
    ((s.allocate a c).release a).blocks a = some (c, 0) := by simp [allocate, release]

@[simp] theorem takeBack_lend (s : Store) (b : Buffer) : (s.lend b).takeBack b = s := by
  simp [lend, takeBack]

/-- A block that comes and goes leaves no trace. -/
theorem free_release_allocate {s : Store} {a : UInt64} (c : Content) (hf : s.blocks a = none)
    (hr : 0 < s.room) : ((s.allocate a c).release a).free a = s := by
  apply Store.ext
  · funext b
    by_cases h : b = a
    · simp [free, h, hf]
    · simp [free, release, allocate, h]
  · rfl
  · show s.room - 1 + 1 = s.room
    omega

/-- From one store to another a block has been made, with the only reference to it in a word. -/
structure Makes (s s' : Store) (t : Tag) (w : ℓ.Word) (c : Content) : Prop where
  tag : ℓ.tag? w = some t
  fresh : s.blocks (ℓ.payload w) = none
  store : s' = s.allocate (ℓ.payload w) c

end Store

/-! ## Keepers -/

/-- How to see what an engine keeps in the engine's own state. -/
structure Keeper (σ : Type) where
  blocks : σ → UInt64 → Option Content
  buffers : σ → List Buffer
  room : σ → Nat

namespace Keeper

/-- The store of a machine. The counts are in the blocks, so the host writes them too. -/
def store (k : Keeper σ) (m : Machine σ) : Store where
  blocks a := (k.blocks m.inner a).map fun c => (c, m.counts a)
  buffers := k.buffers m.inner
  room := k.room m.inner

theorem store_release (k : Keeper σ) (m : Machine σ) {w : ℓ.Word} (hc : ℓ.isCounted w = true) :
    k.store (m.release ℓ w) = (k.store m).release (ℓ.payload w) := by
  simp only [store, Machine.release, hc, if_true, Machine.updateCount, Store.release,
    Store.mk.injEq, and_true]
  funext b
  by_cases h : b = ℓ.payload w
  · simp [h, Function.comp_def]
  · simp [h]

theorem count?_of_blocks (k : Keeper σ) {m : Machine σ} {w : ℓ.Word} {c : Content} {n : Int32}
    (hc : ℓ.isCounted w = true) (hb : (k.store m).blocks (ℓ.payload w) = some (c, n)) :
    m.count? ℓ w = some n := by
  simp only [store, Option.map_eq_some_iff, Prod.mk.injEq] at hb
  obtain ⟨_, _, _, rfl⟩ := hb
  simp [Machine.count?, hc]

end Keeper

/-- An engine that keeps texts and documents for the host as long as it has memory. It gives
out the bytes of its texts, and writes its documents as the texts of which it made them. -/
structure Engine.Keeps (e : Engine ℓ σ ε) (k : Keeper σ) : Prop where
  newText : ∀ s m, 0 < (k.store m).room → ∃ w, (e.answer (.newText s) m).ending = .value w ∧
    (k.store m).Makes (k.store (e.answer (.newText s) m).state) .string w (.text s)
  parse : ∀ (d : Json) m, d.Compound → 0 < (k.store m).room →
    ∃ w, (e.answer (.parse d.text) m).ending = .value w ∧
      (k.store m).Makes (k.store (e.answer (.parse d.text) m).state) .object w (.document d.text)
  stringify : ∀ w t n m, ℓ.tag? w = some .object →
    (k.store m).blocks (ℓ.payload w) = some (.document t, n) → 0 < (k.store m).room →
    ∃ x, (e.answer (.stringify w) m).ending = .value x ∧
      (k.store m).Makes (k.store (e.answer (.stringify w) m).state) .string x (.text t)
  toText : ∀ w s n m, ℓ.tag? w = some .string →
    (k.store m).blocks (ℓ.payload w) = some (.text s, n) →
    ∃ b, (e.answer (.toText w) m).ending = .value (some b) ∧ b.bytes = Utf8.encode s ∧
      k.store (e.answer (.toText w) m).state = (k.store m).lend b
  freeText : ∀ b m, b ∈ (k.store m).buffers → (e.answer (.freeText b) m).ending = .value () ∧
    k.store (e.answer (.freeText b) m).state = (k.store m).takeBack b
  freeValue : ∀ w c m, ℓ.isCounted w = true →
    (k.store m).blocks (ℓ.payload w) = some (c, 0) →
    (e.answer (.freeValue w) m).ending = .value () ∧
      k.store (e.answer (.freeValue w) m).state = (k.store m).free (ℓ.payload w)

/-! ## What an exchange leaves -/

/-- From every machine with this store the exchange returns, and `Q` holds of its result and
of the store that it leaves. -/
def Leaves (k : Keeper σ) (s : Store) (body : Exchange ℓ σ ε α) (Q : α → Store → Prop) : Prop :=
  ∀ m, k.store m = s → ∃ a, (body m).ending = .value a ∧ Q a (k.store (body m).state)

namespace Leaves

variable {k : Keeper σ} {s : Store} {body : Exchange ℓ σ ε α} {P Q : α → Store → Prop}

theorem mono (h : Leaves k s body P) (hp : ∀ a s', P a s' → Q a s') : Leaves k s body Q := by
  intro m hm
  obtain ⟨a, ha, hq⟩ := h m hm
  exact ⟨a, ha, hp a _ hq⟩

theorem pure {a : α} (h : Q a s) : Leaves k s (Pure.pure a : Exchange ℓ σ ε α) Q := by
  rintro m rfl
  exact ⟨a, rfl, h⟩

theorem bind {f : α → Exchange ℓ σ ε β} {R : β → Store → Prop} (h : Leaves k s body P)
    (hf : ∀ a s', P a s' → Leaves k s' (f a) R) : Leaves k s (body >>= f) R := by
  intro m hm
  show ∃ b, (Action.bind body f m).ending = _ ∧ R b (k.store (Action.bind body f m).state)
  unfold Action.bind
  obtain ⟨a, ha, hp⟩ := h m hm
  cases hb : body m with
  | mk ending events m' =>
    rw [hb] at ha hp
    cases ha
    exact hf a _ hp m' rfl

/-- A cleanup goes on from what the body leaves. -/
theorem ensuring {cleanup : Exchange ℓ σ ε Unit} (h : Leaves k s body P)
    (hc : ∀ a s', P a s' → Leaves k s' cleanup fun _ s'' => Q a s'') :
    Leaves k s (body.ensuring cleanup) Q := by
  intro m hm
  unfold Action.ensuring
  obtain ⟨a, ha, hp⟩ := h m hm
  cases hb : body m with
  | mk ending events m' =>
    rw [hb] at ha hp
    cases ha
    obtain ⟨u, hu, hq⟩ := hc a _ hp m' rfl
    exact ⟨a, by simp only [hu, Ending.map], hq⟩

end Leaves

/-! ## Calls and guards -/

section

variable {k : Keeper σ} {s : Store} {body : Exchange ℓ σ ε α} {Q : α → Store → Prop}

theorem Exchange.log_leaves (level : Level) (text : String) :
    Leaves k s (Exchange.log level text : Exchange ℓ σ ε Unit) fun _ s' => s' = s := by
  rintro m rfl
  exact ⟨(), rfl, rfl⟩

theorem Fpu.Guard.new_leaves (settings : Settings) :
    Leaves k s (Fpu.Guard.new settings : Exchange ℓ σ ε Fpu.Guard) fun _ s' => s' = s := by
  unfold Fpu.Guard.new
  split
  · rintro m rfl
    exact ⟨_, rfl, rfl⟩
  · exact Leaves.pure rfl

theorem Fpu.Guard.close_leaves (g : Fpu.Guard) :
    Leaves k s (g.close : Exchange ℓ σ ε Unit) fun _ s' => s' = s := by
  unfold Fpu.Guard.close
  split
  · rintro m rfl
    exact ⟨(), rfl, rfl⟩
  · exact Leaves.pure rfl

/-- A guard does not touch the store. -/
theorem Fpu.withMasked_leaves (settings : Settings) (hb : Leaves k s body Q) :
    Leaves k s (Fpu.withMasked settings body) Q := by
  refine Leaves.bind (Fpu.Guard.new_leaves settings) ?_
  rintro g _ rfl
  refine Leaves.ensuring hb ?_
  intro a s' hq
  refine (Fpu.Guard.close_leaves g).mono ?_
  rintro _ _ rfl
  exact hq

theorem Host.askMasked_leaves {h : Host ℓ σ ε} {r : Request ℓ} {Q : r.Reply → Store → Prop}
    (ha : Leaves k s (h.ask r) Q) : Leaves k s (h.askMasked r) Q :=
  Fpu.withMasked_leaves h.settings ha

end

end ScriptHost
