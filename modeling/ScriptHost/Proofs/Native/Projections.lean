-- Big integers that come from a library. The host takes them from their digits, whatever number
-- the library stores, and what the library throws instead is taken before the projection fails.
import ScriptHost.Native.Session
import ScriptHost.Proofs.Fpu.Guarded
import ScriptHost.Proofs.Native.Exchanges
import ScriptHost.Proofs.Native.Pending

namespace ScriptHost

variable {ℓ : Layout} {σ ε : Type}

/-- What a big integer is projected to. -/
def BigInteger.projected : BigInteger → Except ProjectionError HostValue
  | exact n => .ok (.int n)
  | outOfRange => .error (.outOfRange .bigInt)
  | threw => .error (.coercion .bigInt)

namespace Host

variable {h : Host ℓ σ ε} {w : ℓ.Word}

theorem project_bigInteger (hw : ℓ.tag? w = some .bigInt) :
    h.project w = h.projectBigInteger .bigInt w := by
  unfold project
  cases h.depth <;> simp only [projectWithin, projectWith, hw, projectTagged]

/-- A big integer that is read without an exception takes one call of the engine. -/
theorem project_of_read (hw : ℓ.tag? w = some .bigInt) {m m' : Machine σ} {n : BigInteger}
    {inner : List ε} (hn : n ≠ .threw)
    (ha : h.engine.answer (.toBigInteger w) (h.guarded m) = ⟨.value n, inner, m'⟩) :
    h.project w m = ⟨.value n.projected, h.opening.opened m ++
      [.call ⟨.toBigInteger w, (h.guarded m).control, inner, some n⟩] ++ h.opening.closed m,
      h.opening.leaving m m'⟩ := by
  rw [project_bigInteger hw]
  unfold projectBigInteger toBigInteger
  rw [Action.bind_of_value (askMasked_of_value ha)]
  cases n with
  | exact k => simp [BigInteger.projected, Pure.pure, Action.pure]
  | outOfRange => simp [BigInteger.projected, Pure.pure, Action.pure]
  | threw => exact absurd rfl hn

/-- One that throws is not projected, and the throw is among the events. -/
theorem project_of_threw (hr : h.engine.Replies) (hw : ℓ.tag? w = some .bigInt)
    {m m' : Machine σ} {inner : List ε}
    (ha : h.engine.answer (.toBigInteger w) (h.guarded m) = ⟨.value .threw, inner, m'⟩) :
    ∃ events m'', h.project w m = ⟨.value (BigInteger.projected .threw), events, m''⟩ ∧
      thrown events = true := by
  rw [project_bigInteger hw]
  unfold projectBigInteger toBigInteger
  rw [Action.bind_of_value (askMasked_of_value ha)]
  dsimp only
  -- The projection goes on to take the exception, and whatever comes of that, it has failed.
  have hfail := h.fail_returns (α := HostValue) "numeric coercion" (.coercion .bigInt)
  obtain ⟨r, hend⟩ := fail_completes (α := HostValue) hr "numeric coercion" (.coercion .bigInt)
    (h.opening.leaving m m')
  cases hout : h.fail (α := HostValue) "numeric coercion" (.coercion .bigInt)
      (h.opening.leaving m m') with
  | mk ending events m'' =>
    rw [hout] at hend
    cases hend
    obtain ⟨rfl, -⟩ := (hfail _ _ _ _ hout).2
    have hcall : thrown [(.call ⟨.toBigInteger w, (h.guarded m).control, inner, some .threw⟩ :
        Event ℓ ε)] = true := rfl
    refine ⟨_, _, rfl, ?_⟩
    simp only [thrown_append, hcall, Bool.or_true, Bool.true_or]

end Host

namespace Native

/-! ## What the library is asked -/

/-- A guard does nothing with the library. -/
theorem uses_opened (o : Fpu.Opening) (m : Machine σ) :
    (o.opened m : List (ScriptHost.Event ℓ (Event ℓ))).flatMap uses = [] := by
  unfold Fpu.Opening.opened
  split <;> rfl

theorem uses_closed (o : Fpu.Opening) (m : Machine σ) :
    (o.closed m : List (ScriptHost.Event ℓ (Event ℓ))).flatMap uses = [] := by
  unfold Fpu.Opening.closed
  split <;> rfl

namespace Session

variable {lib : Library ℓ σ} {settings : Settings} {depth : Nat} {s : Session ℓ} {w : ℓ.Word}
  {m : Machine σ}

/-- Digits that the library gives are projected as they are read, and the library is asked no
more than the reading of them takes. -/
theorem project_of_gives (hw : ℓ.tag? w = some .bigInt) {digits : String}
    (hg : lib.Gives s.inst w ((s.host lib settings depth).guarded m) (Utf8.encode digits)) :
    ∃ events m', (s.host lib settings depth).project w m =
        ⟨.value (BigInteger.ofDecimal digits).projected, events, m'⟩ ∧
      ∀ context flags reply, .call (.takeException context) flags reply ∉ events.flatMap uses := by
  obtain ⟨n, inner, m', hread, hn⟩ := Instance.reads_of_gives hg
  obtain rfl := hn.digits digits hg
  refine ⟨_, _, Host.project_of_read hw (BigInteger.ofDecimal_ne_threw digits) hread, ?_⟩
  simpa [uses_opened, uses_closed, uses] using hn.untaken

/-- What the library throws is taken again, and the projection fails. -/
theorem project_of_throws (hw : ℓ.tag? w = some .bigInt)
    (ht : lib.Throws s.inst w ((s.host lib settings depth).guarded m)) :
    ∃ events m', (s.host lib settings depth).project w m =
        ⟨.value (.error (.coercion .bigInt)), events, m'⟩ ∧
      ∀ pending, lib.Minds s.inst.context pending → pending m'.inner = false := by
  obtain ⟨inner, m', hread, -⟩ := Instance.reads_of_throws ht
  have hreplies : (s.host lib settings depth).engine.Replies := s.inst.engine_replies lib
  obtain ⟨events, m'', hproject, hthrown⟩ := Host.project_of_threw hreplies hw hread
  refine ⟨events, m'', hproject, fun pending hl => ?_⟩
  rw [Instance.project_pending rfl hl hproject, hthrown]
  simp

/-- A big integer comes over as the integer that its digits spell, or as out of range where they
spell one of more than 64 bits, and no exception is taken. The number that the library stores has
no part in this. What the library throws, by its code or by giving no digits, makes the projection
fail, and it is not left pending. -/
theorem big_integers_never_wrap (lib : Library ℓ σ) (settings : Settings) (depth : Nat)
    (s : Session ℓ) {w : ℓ.Word} (hw : ℓ.tag? w = some .bigInt) :
    let h := s.host lib settings depth
    (∀ z m, lib.Gives s.inst w (h.guarded m) (Utf8.encode (toString z)) →
      ∃ r events m', h.project w m = ⟨.value r, events, m'⟩ ∧
        (if -2 ^ 63 ≤ z ∧ z ≤ 2 ^ 63 - 1 then ∃ n : Int64, r = .ok (.int n) ∧ n.toInt = z
          else r = .error (.outOfRange .bigInt)) ∧
        ∀ context flags reply,
          .call (.takeException context) flags reply ∉ events.flatMap uses) ∧
    (∀ v m, ∃ n events m', s.inst.toBigInteger lib v m = ⟨.value n, events, m'⟩ ∧
      s.inst.Reads lib v m n events ∧
      ∀ stored, (s.inst.toBigInteger (lib.storing stored) v m).ending = .value n ∧
        (s.inst.toBigInteger (lib.storing stored) v m).state = m') ∧
    (∀ m, lib.Throws s.inst w (h.guarded m) →
      ∃ events m', h.project w m = ⟨.value (.error (.coercion .bigInt)), events, m'⟩ ∧
        ∀ pending, lib.Minds s.inst.context pending → pending m'.inner = false) := by
  intro h
  refine ⟨fun z m hg => ?_, fun v m => ?_, fun m ht => project_of_throws hw ht⟩
  · obtain ⟨events, m', hproject, huntaken⟩ := project_of_gives hw hg
    refine ⟨_, events, m', hproject, ?_, huntaken⟩
    rw [BigInteger.ofDecimal_toString]
    split
    · rename_i hz
      exact ⟨_, rfl, Int64.toInt_ofInt_of_le hz.1 (by omega)⟩
    · rfl
  · obtain ⟨n, events, m', hread, hn⟩ := Instance.toBigInteger_reads lib s.inst v m
    refine ⟨n, events, m', hread, hn, fun stored => ?_⟩
    have hsame := Instance.toBigInteger_storing lib stored s.inst v m
    rwa [hread] at hsame

end Session

/-! ## A library with one big integer -/

/-- A library in which every value is the same big integer. It stores what is left of the integer
in 64 bits, and writes all of its digits. Without an integer both throw. Its own state tells whether
an exception is pending. -/
def Library.holding (ℓ : Layout) (z : Option Int) : Library ℓ Bool where
  answer
    | .newRuntime => fun m => (some 0x100, m)
    | .newContext _ => fun m => (some 0x200, m)
    | .freeContext _ => fun m => ((), m)
    | .freeRuntime _ => fun m => ((), m)
    | .runtimeOf _ => fun m => (0x100, m)
    | .freeValue _ _ => fun m => ((), m)
    | .toText _ _ _ => fun m => (z.map fun z => ⟨0x300, Utf8.encode (toString z)⟩,
        { m with inner := z.isNone || m.inner })
    | .freeText _ _ => fun m => ((), m)
    | .stringify _ _ _ _ => fun m => (ℓ.immediate .undefined 0, m)
    | .parse _ _ _ _ => fun m => (ℓ.immediate .null 0, m)
    | .takeException _ => fun m => (ℓ.immediate .undefined 0, { m with inner := false })
    | .toDouble _ _ => fun m => ((0, none), m)
    | .toBigInteger _ _ => fun m => (z.elim (-1, none) fun z => (0, some (.ofInt z)),
        { m with inner := z.isNone || m.inner })
    | .newText _ _ => fun m => (ℓ.immediate .null 0, m)
    | .eval _ _ _ _ _ => fun m => (ℓ.immediate .undefined 0, m)
    | .setInterruptHandler _ _ _ => fun m => ((), m)

theorem Library.holding_minds (z : Option Int) (context : UInt64) :
    (holding ℓ z).Minds context id := by
  intro r m _ _
  cases r with
  | toBigInteger context w => cases z <;> rfl
  | toText context w split => cases z <;> rfl
  | _ => simp [holding, Request.takes, Request.isThrown, Layout.tag?_immediate]

/-- An integer of 65 bits is out of range, though 5 is stored for it, and where there is no integer
the exception is gone in the end. -/
theorem Session.wide_integer_is_out_of_range :
    let w := Layout.boxed.assemble .bigInt 16
    let s : Session .boxed := ⟨⟨0x100, 0x200, none⟩, []⟩
    let wide := s.host (Library.holding .boxed (some (2 ^ 64 + 5))) .standard 0
    let empty := s.host (Library.holding .boxed none) .standard 0
    Layout.boxed.tag? w = some .bigInt ∧
      ((Library.holding .boxed (some (2 ^ 64 + 5))).answer (.toBigInteger 0x200 w) .fresh).1 =
        (0, some 5) ∧
      (∃ events m', wide.project w .fresh = ⟨.value (.error (.outOfRange .bigInt)), events, m'⟩) ∧
      ∃ events m', empty.project w .fresh = ⟨.value (.error (.coercion .bigInt)), events, m'⟩ ∧
        m'.inner = false := by
  intro w s wide empty
  have hw : Layout.boxed.tag? w = some .bigInt := by decide
  have hgives : (Library.holding .boxed (some (2 ^ 64 + 5))).Gives s.inst w (wide.guarded .fresh)
      (Utf8.encode (toString (2 ^ 64 + 5 : Int))) := ⟨rfl, _, rfl, rfl⟩
  have hthrows : (Library.holding .boxed none).Throws s.inst w (empty.guarded .fresh) :=
    Or.inl (by decide)
  obtain ⟨r, events, m', hproject, hr, -⟩ := (big_integers_never_wrap
    (Library.holding .boxed (some (2 ^ 64 + 5))) .standard 0 s hw).1 _ _ hgives
  obtain ⟨events', m'', hfail, hcleared⟩ := (big_integers_never_wrap
    (Library.holding .boxed none) .standard 0 s hw).2.2 _ hthrows
  obtain rfl : r = .error (.outOfRange .bigInt) := hr
  exact ⟨hw, rfl, ⟨events, m', hproject⟩, events', m'', hfail,
    hcleared id (Library.holding_minds none 0x200)⟩

end Native

end ScriptHost
