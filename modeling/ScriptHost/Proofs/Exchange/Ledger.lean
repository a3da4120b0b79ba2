-- The count of every block, over whole sessions. The count is the number of the
-- handles on the block, of the bare references that the session holds and of the
-- references that the engine holds itself.
import ScriptHost.Proofs.Exchange.Ending
import ScriptHost.Proofs.Exchange.Settling

namespace ScriptHost

variable {ℓ : Layout} {σ ε : Type}

/-! ## What one event does to a count -/

/-- An engine that keeps account. It answers every call, and a call changes the count of
every block by what the engine itself holds more, and by one for each reference that it
hands out. The counts wrap around as the fields of the blocks do. -/
structure Engine.Accountable (e : Engine ℓ σ ε) (blocks : UInt64 → Prop)
    (held : σ → UInt64 → Nat) : Prop where
  replies : e.Replies
  counts : ∀ r m v, (e.answer r m).ending = .value v → ∀ a, blocks a →
    (e.answer r m).state.counts a = m.counts a + Int32.ofInt
      (held (e.answer r m).state.inner a - held m.inner a +
        ((r.handed v).elim 0 fun w => ℓ.refs w a : Nat))

namespace Machine

theorem counts_retain (m : Machine σ) (w : ℓ.Word) (a : UInt64) :
    (m.retain ℓ w).counts a = m.counts a + Int32.ofInt (ℓ.refs w a) := by
  unfold retain Layout.refs
  by_cases hw : ℓ.isCounted w = true
  · by_cases ha : ℓ.payload w = a
    · subst ha
      rw [if_pos hw, if_pos ⟨hw, rfl⟩, updateCount_same]
      rfl
    · rw [if_pos hw, if_neg (fun h => ha h.2), updateCount_other m _ (Ne.symm ha)]
      exact (Int32.add_zero _).symm
  · rw [if_neg hw, if_neg (fun h => hw h.1)]
    exact (Int32.add_zero _).symm

theorem counts_release (m : Machine σ) (w : ℓ.Word) (a : UInt64) :
    (m.release ℓ w).counts a = m.counts a + Int32.ofInt (-(ℓ.refs w a : Int)) := by
  unfold release Layout.refs
  by_cases hw : ℓ.isCounted w = true
  · by_cases ha : ℓ.payload w = a
    · subst ha
      rw [if_pos hw, if_pos ⟨hw, rfl⟩, updateCount_same, Int32.sub_eq_add_neg]
      rfl
    · rw [if_pos hw, if_neg (fun h => ha h.2), updateCount_other m _ (Ne.symm ha)]
      exact (Int32.add_zero _).symm
  · rw [if_neg hw, if_neg (fun h => hw h.1)]
    exact (Int32.add_zero _).symm

theorem inner_retain (m : Machine σ) (w : ℓ.Word) : (m.retain ℓ w).inner = m.inner := by
  unfold retain
  split <;> rfl

theorem inner_release (m : Machine σ) (w : ℓ.Word) : (m.release ℓ w).inner = m.inner := by
  unfold release
  split <;> rfl

end Machine

/-- The references to a block that an event brings out of the engine. -/
def Event.net (a : UInt64) : Event ℓ ε → Int
  | .call c => (c.handed.elim 0 fun w => ℓ.refs w a : Nat)
  | .retain w => ℓ.refs w a
  | .release w _ => -(ℓ.refs w a : Int)
  | .read _ => 0
  | .install _ => 0
  | .log _ => 0

/-- The references to a block that events bring out of the engine. -/
def net (a : UInt64) : List (Event ℓ ε) → Int
  | [] => 0
  | event :: events => event.net a + net a events

theorem net_heard (a : UInt64) (events : List (Event ℓ ε)) :
    net a (heard events) = net a events := by
  induction events with
  | nil => rfl
  | cons event events ih =>
    cases event with
    | install c => exact ih.trans (Int.zero_add _).symm
    | _ => exact congrArg (Event.net a _ + ·) ih

theorem Call.handed_of_isPlain {c : Call ℓ ε} (h : c.isPlain = true) : c.handed = none := by
  obtain ⟨r, control, inner, reply⟩ := c
  cases reply with
  | none => rfl
  | some v => cases r <;> first | rfl | cases h

/-- What events bring out of the engine is what is outside it afterwards and was not before. -/
theorem Settles.net_eq {owed rest : UInt64 → Nat} {xs : List (Event ℓ ε)}
    (h : Settles owed xs rest) (a : UInt64) : (rest a : Int) = owed a + net a xs := by
  induction h with
  | done => simp [net]
  | handed hc hm _ ih =>
    simp only [ih, net, Event.net, hm a, hc, Option.elim_some]
    omega
  | retain hm _ ih | kept _ hm _ ih =>
    simp only [ih, net, Event.net, hm a]
    omega
  | freed hm _ ih =>
    simp only [ih, net, Event.net, hm a, Call.handed, Option.bind_some, Request.handed,
      Option.elim_none]
    omega
  | text _ ih =>
    simp only [ih, net, Event.net, Call.handed, Option.bind_some, Request.handed, Option.elim_none]
    omega
  | plain hc _ ih =>
    simp only [ih, net, Event.net, Call.handed_of_isPlain hc, Option.elim_none]
    omega
  | log _ ih =>
    simp only [ih, net, Event.net]
    omega

theorem Happens.counts_eq {e : Engine ℓ σ ε} {blocks : UInt64 → Prop} {held : σ → UInt64 → Nat}
    (he : e.Accountable blocks held) {m m' : Machine σ} {event : Event ℓ ε}
    (h : Happens e m event m') {a : UInt64} (ha : blocks a) :
    m'.counts a = m.counts a + Int32.ofInt (held m'.inner a - held m.inner a + event.net a) := by
  cases h with
  | call r =>
    obtain ⟨v, hv⟩ := he.replies r m
    rw [he.counts r m v hv a ha, Event.net, Call.handed, hv]
    rfl
  | read b => simp [Event.net]
  | install c => simp [Event.net]
  | log r => simp [Event.net]
  | retain w =>
    rw [Machine.counts_retain, Machine.inner_retain, Event.net, Int.sub_self, Int.zero_add]
  | release w =>
    rw [Machine.counts_release, Machine.inner_release, Event.net, Int.sub_self, Int.zero_add]

theorem Path.counts_eq {e : Engine ℓ σ ε} {blocks : UInt64 → Prop} {held : σ → UInt64 → Nat}
    (he : e.Accountable blocks held) {m m' : Machine σ} {events : List (Event ℓ ε)}
    (h : Path e m events m') {a : UInt64} (ha : blocks a) :
    m'.counts a = m.counts a + Int32.ofInt (held m'.inner a - held m.inner a + net a events) := by
  -- The counts wrap around, so the sums are taken before the cast.
  induction h with
  | nil => simp [net]
  | cons hx _ ih =>
    rw [ih, hx.counts_eq he ha, Int32.add_assoc, ← Int32.ofInt_add, net]
    congr 2
    omega

end ScriptHost
