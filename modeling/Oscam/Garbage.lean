import Mathlib.Data.List.Nodup
import Mathlib.Data.List.FinRange
import Oscam.Lib.Reach

/-!
# The garbage collector

Blocks that other threads may still use are not freed but handed to
`add_garbage`.  They wait in one of sixteen lists, by their address, until the
collector finds them old enough.  Seen from outside every block goes through a
life of its own, which does not know of the lists.
-/

namespace Oscam.Garbage

open StepSystem

/-- `cs_garbage` without its link; a list begins with its newest entry. -/
structure CsGarbage where
  time : Int
  data : Nat
  deriving DecidableEq, Repr

/-- The variables of `oscam-garbage.c`. -/
structure Collector where
  active : Bool
  debug : Bool
  first : Fin 16 → List CsGarbage

/-- The list a block waits in. -/
def bucketOf (data : Nat) : Fin 16 := ⟨data / 16 % 16, Nat.mod_lt _ (by decide)⟩

/-- `start_garbage_collector`. -/
def startGarbageCollector (debug : Bool) : Collector :=
  { active := true, debug := debug, first := fun _ => [] }

/-- `add_garbage`: the collector and the blocks freed. -/
def addGarbage (c : Collector) (data : Nat) (now : Int) :
    Collector × List Nat :=
  if data = 0 then (c, [])
  else if c.active = false ∨ c.debug = true then (c, [data])
  else if (c.first (bucketOf data)).any (·.data == data) then (c, [])
  else
    ({ c with
        first := Function.update c.first (bucketOf data)
          ({ time := now, data := data } :: c.first (bucketOf data)) }, [])

/-- The loop over one list: what stays in it and what is freed. -/
def collect (now : Int) : List CsGarbage → List CsGarbage × List Nat
  | [] => ([], [])
  | garbage :: next =>
      let (kept, freed) := collect now next
      if garbage.time + 5 < now then (kept, garbage.data :: freed)
      else (garbage :: kept, freed)

/-- One turn of the inner loop of `garbage_collector`. -/
def garbageCollector (c : Collector) (i : Fin 16) (now : Int) :
    Collector × List Nat :=
  let (kept, freed) := collect now (c.first i)
  ({ c with first := Function.update c.first i kept }, freed)

/-- `stop_garbage_collector`. -/
def stopGarbageCollector (c : Collector) : Collector × List Nat :=
  if c.active then
    ({ c with active := false, first := fun _ => [] },
      (List.finRange 16).flatMap fun i => (c.first i).map (·.data))
  else (c, [])

/-! ## The program around it -/

/-- The heap: the blocks that are allocated, and whether `free` was given
another one. -/
structure Heap where
  allocated : Nat → Bool
  corrupt : Bool

namespace Heap

def malloc (h : Heap) (data : Nat) : Heap :=
  { h with allocated := Function.update h.allocated data true }

def free (h : Heap) (data : Nat) : Heap :=
  { allocated := Function.update h.allocated data false
    corrupt := h.corrupt || !h.allocated data }

end Heap

structure World where
  collector : Collector
  heap : Heap

/-- What the threads do: those of the program get blocks, free them or hand
them over, the collector looks at one list, and the program ends. -/
inductive Event where
  | malloc (data : Nat)
  | free (data : Nat)
  | addGarbage (data : Nat) (now : Int)
  | collect (i : Fin 16) (now : Int)
  | stop
  deriving DecidableEq, Repr

namespace World

/-- What a function of the collector did. -/
def after (w : World) (done : Collector × List Nat) : World :=
  { collector := done.1, heap := done.2.foldl Heap.free w.heap }

def step (w : World) : Event → World
  | .malloc data => { w with heap := w.heap.malloc data }
  | .free data => { w with heap := w.heap.free data }
  | .addGarbage data now => w.after (Garbage.addGarbage w.collector data now)
  | .collect i now => w.after (garbageCollector w.collector i now)
  | .stop => w.after (stopGarbageCollector w.collector)

end World

/-! ## The life of a block -/

/-- A block is not in use, belongs to the program, or waits to be freed since
some time. -/
inductive Phase where
  | unused
  | owned
  | doomed (since : Int)
  deriving DecidableEq, Repr

/-- All blocks, and whether a block handed over is freed at once. -/
structure Life where
  phase : Nat → Phase
  direct : Bool

namespace Life

/-- What an event does to one block. -/
def next (direct : Bool) (data : Nat) (phase : Phase) : Event → Phase
  | .malloc other => if data = other then .owned else phase
  | .free other => if data = other then .unused else phase
  | .addGarbage other now =>
      if data = other ∧ phase = .owned then
        if direct then .unused else .doomed now
      else phase
  | .collect i now =>
      match phase with
      | .doomed since =>
          if bucketOf data = i ∧ since + 5 < now then .unused else phase
      | _ => phase
  | .stop =>
      match phase with
      | .doomed _ => .unused
      | _ => phase

def step (l : Life) (event : Event) : Life :=
  { phase := fun data => next l.direct data (l.phase data) event
    direct := l.direct || event == .stop }

/-- The program gets blocks that are not in use, frees its own ones, and hands
over blocks that are its own or handed over already. -/
def Allowed (l : Life) : Event → Prop
  | .malloc data => data ≠ 0 ∧ l.phase data = .unused
  | .free data => l.phase data = .owned
  | .addGarbage data _ => data = 0 ∨ l.phase data ≠ .unused
  | _ => True

end Life

namespace World

def phase (w : World) (data : Nat) : Phase :=
  match (w.collector.first (bucketOf data)).find? (·.data == data) with
  | some garbage => .doomed garbage.time
  | none => if w.heap.allocated data then .owned else .unused

/-- The lives of the blocks. -/
def life (w : World) : Life :=
  { phase := w.phase
    direct := !w.collector.active || w.collector.debug }

end World

/-! ## One list -/

variable {c : Collector} {h : Heap} {w : World} {l : List CsGarbage}
  {blocks : List Nat} {a data : Nat} {now : Int} {i : Fin 16}

theorem find?_of_mem (nodup : (l.map (·.data)).Nodup) {g : CsGarbage}
    (member : g ∈ l) : l.find? (·.data == g.data) = some g := by
  induction l with
  | nil => cases member
  | cons garbage next induction =>
      rw [List.map_cons, List.nodup_cons] at nodup
      rcases List.mem_cons.mp member with same | later
      · rw [same]
        exact List.find?_cons_of_pos (by simp)
      · have other : garbage.data ≠ g.data := by
          intro same
          exact nodup.1 (same ▸ List.mem_map_of_mem later)
        rw [List.find?_cons_of_neg (by simpa using other)]
        exact induction nodup.2 later

/-! ## Freeing blocks -/

/-- Blocks that are different and allocated are freed without harm. -/
theorem foldl_free (nodup : blocks.Nodup)
    (owned : ∀ data ∈ blocks, h.allocated data = true) :
    blocks.foldl Heap.free h =
      { allocated := fun data => h.allocated data && !decide (data ∈ blocks)
        corrupt := h.corrupt } := by
  induction blocks generalizing h with
  | nil => simp
  | cons data blocks induction =>
      rw [List.nodup_cons] at nodup
      have first := owned data List.mem_cons_self
      rw [List.foldl_cons, induction nodup.2]
      · simp only [Heap.free, first, Bool.not_true, Bool.or_false,
          Heap.mk.injEq, and_true]
        funext block
        by_cases same : block = data
        · simp [same]
        · simp [same, Function.update]
      · intro block member
        have other : block ≠ data := by
          intro same
          exact nodup.1 (same ▸ member)
        have owned := owned block (List.mem_cons_of_mem data member)
        simp [Heap.free, Function.update, other, owned]

/-! ## The lists and the lives -/

/-- Every block that waits is in the list of its address, once and allocated;
nothing waits where blocks are freed at once. -/
structure Sound (w : World) : Prop where
  pending : ∀ i, ∀ g ∈ w.collector.first i,
    bucketOf g.data = i ∧ w.heap.allocated g.data = true
  nodup : ∀ i, ((w.collector.first i).map (·.data)).Nodup
  direct : w.life.direct = true → ∀ i, w.collector.first i = []
  zero : w.heap.allocated 0 = false
  intact : w.heap.corrupt = false

theorem phase_of_mem (sound : Sound w) {g : CsGarbage}
    (member : g ∈ w.collector.first i) : w.phase g.data = .doomed g.time := by
  have place := (sound.pending i g member).1
  unfold World.phase
  rw [place, find?_of_mem (sound.nodup i) member]

theorem phase_of_not_mem
    (free : ∀ g ∈ w.collector.first (bucketOf a), g.data ≠ a) :
    w.phase a = if w.heap.allocated a then .owned else .unused := by
  have missing : (w.collector.first (bucketOf a)).find? (·.data == a) =
      none := by
    apply List.find?_eq_none.mpr
    intro g member
    simpa using free g member
  unfold World.phase
  rw [missing]

/-- The three cases of a phase, from the lists and the heap. -/
theorem phase_cases (sound : Sound w) (a : Nat) :
    (∃ g ∈ w.collector.first (bucketOf a), g.data = a ∧
      w.phase a = .doomed g.time) ∨
    ((∀ g ∈ w.collector.first (bucketOf a), g.data ≠ a) ∧
      w.phase a = if w.heap.allocated a then .owned else .unused) := by
  by_cases waits : ∃ g ∈ w.collector.first (bucketOf a), g.data = a
  · obtain ⟨g, member, same⟩ := waits
    refine .inl ⟨g, member, same, ?_⟩
    rw [← same]
    exact phase_of_mem sound member
  · have free (g) (member : g ∈ w.collector.first (bucketOf a)) :
        g.data ≠ a := fun same => waits ⟨g, member, same⟩
    exact .inr ⟨free, phase_of_not_mem free⟩

/-- An event keeps the lists in order and does to every block what the event
does to its life. -/
structure Right (w : World) (event : Event) : Prop where
  sound : Sound (w.step event)
  phase : ∀ a, (w.step event).phase a =
    Life.next w.life.direct a (w.phase a) event

theorem direct_iff : w.life.direct = true ↔
    w.collector.active = false ∨ w.collector.debug = true := by
  simp [World.life]

/-- What was done takes the old entries out of all lists and frees their
blocks, each once. -/
structure Clears (w : World) (done : Collector × List Nat)
    (old : CsGarbage → Bool) : Prop where
  lists : ∀ i, done.1.first i = (w.collector.first i).filter fun g => !old g
  nodup : done.2.Nodup
  freed : ∀ data, data ∈ done.2 ↔
    ∃ i, ∃ g ∈ w.collector.first i, old g = true ∧ g.data = data
  direct : (done.1.active = false ∨ done.1.debug = true) →
    ∀ i, done.1.first i = []

variable {done : Collector × List Nat} {old : CsGarbage → Bool}

theorem Clears.heap (clears : Clears w done old) (sound : Sound w) :
    (w.after done).heap =
      { allocated := fun data =>
          w.heap.allocated data && !decide (data ∈ done.2)
        corrupt := w.heap.corrupt } := by
  apply foldl_free clears.nodup
  intro data member
  obtain ⟨i, g, waits, _, same⟩ := (clears.freed data).mp member
  rw [← same]
  exact (sound.pending i g waits).2

/-- The entry of a block is the only one with its address. -/
theorem eq_of_data (sound : Sound w) {j : Fin 16} {g g' : CsGarbage}
    (first : g ∈ w.collector.first i) (second : g' ∈ w.collector.first j)
    (same : g.data = g'.data) : g = g' := by
  have place := (sound.pending i g first).1
  have place' := (sound.pending j g' second).1
  rw [← place'] at second
  rw [← place, same] at first
  have found := find?_of_mem (sound.nodup _) second
  have other := find?_of_mem (sound.nodup _) first
  rw [same, found] at other
  exact (Option.some_inj.mp other).symm

theorem Clears.sound (clears : Clears w done old) (sound : Sound w) :
    Sound (w.after done) := by
  have heap := clears.heap sound
  constructor
  · intro i g member
    have kept : g ∈ (w.collector.first i).filter fun g => !old g :=
      clears.lists i ▸ member
    obtain ⟨waits, young⟩ := List.mem_filter.mp kept
    obtain ⟨place, owned⟩ := sound.pending i g waits
    refine ⟨place, ?_⟩
    have stays : g.data ∉ done.2 := by
      intro freed
      obtain ⟨j, g', waits', gone, same⟩ := (clears.freed _).mp freed
      rw [eq_of_data sound waits' waits same] at gone
      simp [gone] at young
    rw [heap]
    simp [owned, stays]
  · intro i
    have lists : (w.after done).collector.first i =
        (w.collector.first i).filter fun g => !old g := clears.lists i
    rw [lists]
    exact ((List.filter_sublist).map _).nodup (sound.nodup i)
  · intro direct
    exact clears.direct (direct_iff.mp direct)
  · rw [heap]
    simp [sound.zero]
  · rw [heap]
    exact sound.intact

theorem Clears.phase (clears : Clears w done old) (sound : Sound w) (a : Nat) :
    (w.after done).phase a =
      match w.phase a with
      | .doomed since =>
          if old { time := since, data := a } then .unused
          else .doomed since
      | other => other := by
  have heap := clears.heap sound
  have lists : (w.after done).collector.first (bucketOf a) =
      (w.collector.first (bucketOf a)).filter fun g => !old g :=
    clears.lists _
  rcases phase_cases sound a with ⟨g, waits, same, phase⟩ | ⟨free, phase⟩
  · subst same
    rw [phase]
    cases gone : old g with
    | true =>
        have freed : g.data ∈ done.2 :=
          (clears.freed _).mpr ⟨_, g, waits, gone, rfl⟩
        rw [phase_of_not_mem, heap]
        · simp [freed, gone]
        · intro g' member same
          rw [lists] at member
          obtain ⟨waits', young⟩ := List.mem_filter.mp member
          rw [eq_of_data sound waits' waits same, gone] at young
          cases young
    | false =>
        have kept : g ∈ (w.after done).collector.first (bucketOf g.data) := by
          rw [lists]
          exact List.mem_filter.mpr ⟨waits, by rw [gone]; rfl⟩
        rw [phase_of_mem (clears.sound sound) kept]
        simp [gone]
  · have stays : a ∉ done.2 := by
      intro freed
      obtain ⟨i, g, waits, _, same⟩ := (clears.freed a).mp freed
      rw [← (sound.pending i g waits).1, same] at waits
      exact free g waits same
    have behind : (w.after done).phase a =
        if w.heap.allocated a then .owned else .unused := by
      rw [phase_of_not_mem, heap]
      · simp [stays]
      · intro g member
        rw [lists] at member
        exact free g (List.mem_filter.mp member).1
    rw [behind, phase]
    cases w.heap.allocated a <;> rfl

/-- Blocks come from `malloc` and are given back once, by their owner or
through the collector. -/
def Allowed (w : World) (event : Event) : Prop :=
  w.life.Allowed event

/-- The program before its first block. -/
def begun (debug : Bool) : World :=
  { collector := startGarbageCollector debug
    heap := { allocated := fun _ => false, corrupt := false } }

/-- The states of all runs in which the program keeps to its blocks. -/
def Reached (debug : Bool) : World → Prop :=
  Reach World.step Allowed (· = begun debug)

end Oscam.Garbage
