-- A small engine that keeps texts and documents for the host, in two places. The laws about
-- engines that do so are seen at work on it.
import ScriptHost.Proofs.Exchange.Keeping

namespace ScriptHost

variable {ℓ : Layout} {ε : Type}

/-- What lies at the addresses of a desk, and which buffers are out. -/
structure Desk where
  cells : UInt64 → Option Content
  buffers : List Buffer

namespace Desk

/-- The addresses at which there is a place. -/
def places : List UInt64 := [16, 32]

def put (d : Desk) (a : UInt64) (c : Option Content) : Desk :=
  { d with cells := fun b => if b = a then c else d.cells b }

/-- What lies at a place. Elsewhere there is nothing. -/
def at? (d : Desk) (a : UInt64) : Option Content := if a ∈ places then d.cells a else none

def keeper : Keeper Desk where
  blocks := at?
  buffers := buffers
  room d := places.countP fun a => (d.cells a).isNone

/-- A new block in the first free place. Where there is none, an exception is thrown. -/
def make (ℓ : Layout) (t : Tag) (c : Content) : Action (Machine Desk) ε ℓ.Word := fun m =>
  match places.find? fun a => (m.inner.cells a).isNone with
  | some a => ⟨.value (ℓ.assemble t a), [],
      ({ m with inner := m.inner.put a (some c) } : Machine Desk).updateCount a fun _ => 1⟩
  | none => ⟨.value (ℓ.immediate .exception 0), [], m⟩

end Desk

/-- An engine that makes texts and documents on its desk, and nothing else. -/
def Engine.desk (ℓ : Layout) : Engine ℓ Desk ε where
  answer
    | .newText s => Desk.make ℓ .string (.text s)
    | .parse t => Desk.make ℓ .object (.document t)
    | .stringify w => fun m =>
      match m.inner.at? (ℓ.payload w) with
      | some (.document t) => Desk.make ℓ .string (.text t) m
      | _ => ⟨.value (ℓ.immediate .exception 0), [], m⟩
    | .toText w => fun m =>
      match m.inner.at? (ℓ.payload w) with
      | some (.text s) =>
        let b : Buffer := ⟨ℓ.payload w, Utf8.encode s⟩
        ⟨.value (some b), [], { m with inner.buffers := b :: m.inner.buffers }⟩
      | _ => ⟨.value none, [], m⟩
    | .freeText b => fun m =>
      ⟨.value (), [], { m with inner.buffers := m.inner.buffers.erase b }⟩
    | .freeValue w => fun m => ⟨.value (), [], { m with inner := m.inner.put (ℓ.payload w) none }⟩
    | .takeException => fun m => ⟨.value (ℓ.immediate .undefined 0), [], m⟩
    | .toDouble _ => fun m => ⟨.value none, [], m⟩
    | .toBigInteger _ => fun m => ⟨.value .threw, [], m⟩
    | .eval _ _ => fun m => ⟨.value (ℓ.immediate .undefined 0), [], m⟩

namespace Desk

theorem fits_place {a : UInt64} (ha : a ∈ places) : ℓ.Fits a := by
  simp only [places, List.mem_cons, List.not_mem_nil, or_false] at ha
  unfold Layout.Fits
  rcases ha with rfl | rfl <;> cases ℓ <;> decide

/-- Filling a place leaves one free place less. -/
theorem room_put {d : Desk} {a : UInt64} (ha : a ∈ places) (c : Content) (h : d.cells a = none) :
    keeper.room (d.put a (some c)) = keeper.room d - 1 := by
  simp only [places, List.mem_cons, List.not_mem_nil, or_false] at ha
  rcases ha with rfl | rfl
  · simp [keeper, places, put, h, List.countP_cons]
  · simp [keeper, places, put, h, List.countP_cons]

/-- Clearing a place leaves one free place more. -/
theorem room_clear {d : Desk} {a : UInt64} {c : Content} (ha : a ∈ places)
    (h : d.cells a = some c) : keeper.room (d.put a none) = keeper.room d + 1 := by
  simp only [places, List.mem_cons, List.not_mem_nil, or_false] at ha
  rcases ha with rfl | rfl
  · simp [keeper, places, put, h, List.countP_cons]
  · simp [keeper, places, put, h, List.countP_cons]
    omega

theorem exists_free {d : Desk} (h : 0 < keeper.room d) :
    ∃ a ∈ places, d.cells a = none ∧ places.find? (fun a => (d.cells a).isNone) = some a := by
  have hany : (places.find? fun a => (d.cells a).isNone).isSome := by
    rw [List.find?_isSome]
    exact List.countP_pos_iff.mp h
  obtain ⟨a, ha⟩ := Option.isSome_iff_exists.mp hany
  exact ⟨a, List.mem_of_find?_eq_some ha, by simpa using List.find?_some ha, ha⟩

theorem make_makes (t : Tag) (c : Content) {m : Machine Desk} (hr : 0 < (keeper.store m).room) :
    ∃ w, (make (ε := ε) ℓ t c m).ending = .value w ∧
      (keeper.store m).Makes (keeper.store (make (ε := ε) ℓ t c m).state) t w c := by
  obtain ⟨a, ha, hfree, hfind⟩ := exists_free hr
  have hfits : ℓ.Fits a := fits_place ha
  unfold make
  rw [hfind]
  refine ⟨ℓ.assemble t a, rfl, ℓ.tag?_assemble t hfits, ?_, ?_⟩
  · rw [ℓ.payload_assemble t hfits]
    simp [Keeper.store, keeper, at?, hfree]
  · rw [ℓ.payload_assemble t hfits]
    apply Store.ext
    · funext b
      by_cases hb : b = a
      · simp [Keeper.store, keeper, at?, put, Store.allocate, Machine.updateCount, hb, ha]
      · simp [Keeper.store, keeper, at?, put, Store.allocate, Machine.updateCount, hb]
    · rfl
    · exact room_put ha c hfree

theorem at?_of_blocks {m : Machine Desk} {a : UInt64} {c : Content} {n : Int32}
    (h : (keeper.store m).blocks a = some (c, n)) : m.inner.at? a = some c := by
  simp only [Keeper.store, keeper, Option.map_eq_some_iff, Prod.mk.injEq] at h
  obtain ⟨_, hc, rfl, _⟩ := h
  exact hc

theorem clear_frees {m : Machine Desk} {a : UInt64} {c : Content} (h : m.inner.at? a = some c) :
    keeper.store { m with inner := m.inner.put a none } = (keeper.store m).free a := by
  simp only [at?, Option.ite_none_right_eq_some] at h
  apply Store.ext
  · funext b
    by_cases hb : b = a
    · simp [Keeper.store, keeper, at?, put, Store.free, hb]
    · simp [Keeper.store, keeper, at?, put, Store.free, hb]
  · rfl
  · exact room_clear h.1 h.2

end Desk

theorem Engine.desk_keeps (ℓ : Layout) : (Engine.desk ℓ : Engine ℓ Desk ε).Keeps Desk.keeper where
  newText s m hr := Desk.make_makes .string (.text s) hr
  parse d m _ hr := Desk.make_makes .object (.document d.text) hr
  stringify w t n m _ hb hr := by
    simp only [desk, Desk.at?_of_blocks hb]
    exact Desk.make_makes .string (.text t) hr
  toText w s n m _ hb := by
    simp only [desk, Desk.at?_of_blocks hb]
    exact ⟨_, rfl, rfl, rfl⟩
  freeText b m _ := ⟨rfl, rfl⟩
  freeValue w c m _ hb := ⟨rfl, Desk.clear_frees (Desk.at?_of_blocks hb)⟩

/-- A host of that engine, which projects one object at a time. -/
def Host.desk (ℓ : Layout) : Host ℓ Desk Unit := ⟨Engine.desk ℓ, .standard, 1⟩

/-- A machine with nothing on its desk. -/
def Machine.cleared : Machine Desk := ⟨⟨fun _ => none, []⟩, fun _ => 0, ⟨0x1F80, 0x37F⟩, []⟩

/-- A document with a member of each kind. -/
def Json.sample : Json :=
  .obj [("a", .num (.int 1 (by decide))), ("b", .arr [.bool true, .null])]

theorem Json.sample_travels : (HostValue.json sample).Travels := ⟨.members _, rfl⟩

end ScriptHost
