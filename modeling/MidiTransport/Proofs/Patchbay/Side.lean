import Mathlib.Data.List.Induction
import Mathlib.Data.List.Nodup
import Mathlib.Logic.Function.Basic
import MidiTransport.Patchbay.Wiring

/-!
# The chains of one side

The inlets of all pipes form chains that hang on sources, and the outlets form chains that
hang on sinks, in the same way. A `Side` is what both have in common, and its ends, sources
or sinks, are called roots here. A side is `Chained` by lists of pipes if its links spell
exactly these lists. Then every operation on the links is an operation on the lists:
`Chained.attach` appends to one list, `Chained.detach` erases from all lists and
`Chained.exchange` renames two roots.
-/

namespace MidiTransport.Patchbay

variable {Root : Type}

/-- What a pipe hangs on. -/
inductive Hook (Root : Type) where
  | root (root : Root)
  /-- The pipe before it in its chain. -/
  | pipe (before : Pipe)
  deriving DecidableEq

namespace Hook

/-- What the pipe behind these pipes hangs on, if the first of them hangs on this. -/
def behind (hook : Hook Root) (pipes : List Pipe) : Hook Root :=
  match pipes.getLast? with
  | none => hook
  | some last => .pipe last

@[simp] theorem behind_nil (hook : Hook Root) : hook.behind [] = hook := by
  simp [behind]

@[simp] theorem behind_concat (hook : Hook Root) (pipes : List Pipe) (last : Pipe) :
    hook.behind (pipes ++ [last]) = .pipe last := by
  simp [behind]

theorem behind_cons (hook : Hook Root) (pipe : Pipe) (rest : List Pipe) :
    hook.behind (pipe :: rest) = (Hook.pipe pipe).behind rest := by
  rcases List.eq_nil_or_concat rest with rfl | ⟨front, last, rfl⟩
  · rfl
  · rw [List.concat_eq_append, ← List.cons_append, behind_concat, behind_concat]

/-- What hangs on a pipe is behind pipes that it is the last one of. -/
theorem mem_of_behind {root : Root} {pipes : List Pipe} {last : Pipe}
    (same : (Hook.root root).behind pipes = .pipe last) : last ∈ pipes := by
  rcases List.eq_nil_or_concat pipes with rfl | ⟨front, other, rfl⟩
  · simp at same
  · simp_all

/-- What hangs on a root is behind no pipes. -/
theorem root_of_behind {root one : Root} {pipes : List Pipe}
    (same : (Hook.root root).behind pipes = .root one) : pipes = [] ∧ root = one := by
  rcases List.eq_nil_or_concat pipes with rfl | ⟨front, last, rfl⟩
  · simpa using same
  · simp at same

/-- The hook with its root under another name. -/
def rename (name : Root → Root) : Hook Root → Hook Root
  | .root one => .root (name one)
  | .pipe before => .pipe before

end Hook

/-- A second exchange restores the first one. -/
theorem Graph.exchange_exchange [DecidableEq Root] (one other root : Root) :
    exchange one other (exchange one other root) = root := by
  unfold exchange
  split <;> split <;> simp_all

/-- The links of one side. -/
@[ext]
structure Side (Root : Type) where
  /-- The first pipe of each chain. -/
  head : Root → Option Pipe
  next : Pipe → Option Pipe
  back : Pipe → Option (Hook Root)

namespace Side

variable {side other : Side Root} {lists : Root → List Pipe} {hook : Hook Root}
  {pipe : Pipe} {pipes front back : List Pipe} {after : Option Pipe}

/-- The pipes are linked with each other in both directions. The first of them hangs on a
hook, and this pipe, if any, comes after the last of them. -/
def Strung (side : Side Root) : Hook Root → List Pipe → Option Pipe → Prop
  | _, [], _ => True
  | hook, pipe :: rest, after =>
    side.back pipe = some hook ∧ side.next pipe = rest.head?.or after ∧
      side.Strung (.pipe pipe) rest after

/-- Pipes are strung in two parts, the later ones behind the earlier ones. -/
theorem strung_append :
    side.Strung hook (front ++ back) after ↔
      side.Strung hook front (back.head?.or after) ∧
        side.Strung (hook.behind front) back after := by
  induction front generalizing hook with
  | nil => simp [Strung]
  | cons pipe rest ih =>
    simp only [List.cons_append, Strung, ih, Hook.behind_cons, List.head?_append, Option.or_assoc,
      and_assoc]

/-- Only the links of the pipes themselves matter. -/
theorem Strung.congr (strung : side.Strung hook pipes after)
    (same : ∀ pipe ∈ pipes, other.back pipe = side.back pipe ∧ other.next pipe = side.next pipe) :
    other.Strung hook pipes after := by
  induction pipes generalizing hook with
  | nil => trivial
  | cons pipe rest ih =>
    obtain ⟨hangs, leads, later⟩ := strung
    obtain ⟨sameBack, sameNext⟩ := same pipe (by simp)
    exact ⟨sameBack.trans hangs, sameNext.trans leads,
      ih later fun other member => same other (by simp [member])⟩

/-- Every pipe that is strung hangs on something. -/
theorem Strung.back_isSome (strung : side.Strung hook pipes after) (member : pipe ∈ pipes) :
    side.back pipe ≠ none := by
  induction pipes generalizing hook with
  | nil => cases member
  | cons first rest ih =>
    obtain ⟨hangs, -, later⟩ := strung
    rcases List.mem_cons.mp member with rfl | member
    · simp [hangs]
    · exact ih later member

/-- Pipes stay strung when roots change their names. -/
theorem Strung.rename (name : Root → Root) (strung : side.Strung hook pipes after)
    (back : ∀ pipe, other.back pipe = (side.back pipe).map (·.rename name))
    (next : ∀ pipe, other.next pipe = side.next pipe) :
    other.Strung (hook.rename name) pipes after := by
  induction pipes generalizing hook with
  | nil => trivial
  | cons pipe rest ih =>
    obtain ⟨hangs, leads, later⟩ := strung
    exact ⟨by simp [back, hangs], (next pipe).trans leads, ih later⟩

/-- The links spell these lists, and pipes outside of all lists have no links. -/
structure Chained (side : Side Root) (lists : Root → List Pipe) : Prop where
  head : ∀ root, side.head root = (lists root).head?
  strung : ∀ root, side.Strung (.root root) (lists root) none
  loose : ∀ pipe, (∀ root, pipe ∉ lists root) → side.back pipe = none ∧ side.next pipe = none

namespace Chained

variable {root : Root}

/-! ## Places in the chains -/

/-- A pipe that hangs on nothing is in no list. -/
theorem not_mem_of_back (chained : side.Chained lists) (free : side.back pipe = none)
    (root : Root) : pipe ∉ lists root :=
  fun member => (chained.strung root).back_isSome member free

/-- A pipe that hangs on something is in a list. -/
theorem exists_mem_of_back (chained : side.Chained lists) (hangs : side.back pipe = some hook) :
    ∃ root, pipe ∈ lists root := by
  by_contra absent
  have loose := (chained.loose pipe fun root member => absent ⟨root, member⟩).1
  exact absurd (loose.symm.trans hangs) (by simp)

/-- The links of a pipe at its place in a list. -/
theorem links_of_split (chained : side.Chained lists) (split : lists root = front ++ pipe :: back) :
    side.back pipe = some ((Hook.root root).behind front) ∧ side.next pipe = back.head? := by
  have strung := chained.strung root
  rw [split, strung_append] at strung
  obtain ⟨-, hangs, leads, -⟩ := strung
  exact ⟨hangs, by simpa using leads⟩

/-- A pipe has one place in one list: what it hangs on leads back to the root. -/
theorem split_unique {other : Root} {front' back' : List Pipe} (chained : side.Chained lists)
    (here : lists root = front ++ pipe :: back) (there : lists other = front' ++ pipe :: back') :
    root = other ∧ front = front' := by
  induction front using List.reverseRecOn generalizing pipe back front' back' with
  | nil =>
    have same := (chained.links_of_split here).1.symm.trans (chained.links_of_split there).1
    rcases List.eq_nil_or_concat front' with rfl | ⟨rest, last, rfl⟩
    · simpa using same
    · simp at same
  | append_singleton rest last ih =>
    have same := (chained.links_of_split here).1.symm.trans (chained.links_of_split there).1
    rcases List.eq_nil_or_concat front' with rfl | ⟨rest', last', rfl⟩
    · simp at same
    · obtain rfl : last = last' := by simpa using same
      rw [List.append_assoc] at here
      rw [List.concat_eq_append, List.append_assoc] at there
      obtain ⟨rfl, rfl⟩ := ih here there
      simp

/-- A pipe lies in at most one list. -/
theorem root_unique {other : Root} (chained : side.Chained lists) (here : pipe ∈ lists root)
    (there : pipe ∈ lists other) : root = other := by
  obtain ⟨front, back, here⟩ := List.append_of_mem here
  obtain ⟨front', back', there⟩ := List.append_of_mem there
  exact (chained.split_unique here there).1

/-- No list holds a pipe twice. -/
theorem nodup (chained : side.Chained lists) (root : Root) : (lists root).Nodup := by
  rw [List.nodup_iff_injective_getElem]
  intro one other same
  have split (index : Fin (lists root).length) :
      lists root = (lists root).take index.val ++
        (lists root)[index.val] :: (lists root).drop (index.val + 1) := by
    simp
  have here := split one
  have there := split other
  rw [← show (lists root)[one.val] = (lists root)[other.val] from same] at there
  have lengths := congrArg List.length (chained.split_unique here there).2
  apply Fin.ext
  rw [List.length_take_of_le (Nat.le_of_lt one.isLt),
    List.length_take_of_le (Nat.le_of_lt other.isLt)] at lengths
  exact lengths

/-- Clearing the links of a pipe that has none changes nothing. -/
theorem loosen_free (chained : side.Chained lists) (free : side.back pipe = none) :
    { side with
      next := Function.update side.next pipe none
      back := Function.update side.back pipe none } = side := by
  have final := (chained.loose pipe (chained.not_mem_of_back free)).2
  refine Side.ext rfl ?_ ?_
  · exact Function.update_eq_self_iff.mpr final.symm
  · exact Function.update_eq_self_iff.mpr free.symm

end Chained

/-! ## Operations on links -/

section Operations

variable [DecidableEq Root]

/-- Let a pipe hang on the last pipe of a chain, or on the root if there is none. -/
def attach (side : Side Root) (root : Root) (pipe : Pipe) : Option Pipe → Side Root
  | none =>
    { side with
      head := Function.update side.head root (some pipe)
      back := Function.update side.back pipe (some (.root root)) }
  | some last =>
    { side with
      next := Function.update side.next last (some pipe)
      back := Function.update side.back pipe (some (.pipe last)) }

/-- Take a pipe out of its chain: what it hangs on and the pipe behind it are linked with
each other. -/
def detach (side : Side Root) (pipe : Pipe) : Side Root where
  head root := if side.back pipe = some (.root root) then side.next pipe else side.head root
  next other :=
    if other = pipe then none
    else if side.back pipe = some (.pipe other) then side.next pipe else side.next other
  back other :=
    if other = pipe then none
    else if side.next pipe = some other then side.back pipe else side.back other

/-- Link a pipe, or none, with what the pipe in front of it hung on. -/
def close (side : Side Root) (hook : Hook Root) (next : Option Pipe) : Side Root where
  head root := if hook = .root root then next else side.head root
  next other := if hook = .pipe other then next else side.next other
  back other := if next = some other then some hook else side.back other

/-- Taking a pipe out of its chain is to clear its links and to close the gap. -/
theorem close_eq_detach (hangs : side.back pipe = some hook) (apart : hook ≠ .pipe pipe)
    (leads : side.next pipe ≠ some pipe) :
    close { side with
        next := Function.update side.next pipe none
        back := Function.update side.back pipe none } hook (side.next pipe) =
      side.detach pipe := by
  ext1
  · ext1 root
    simp [close, detach, hangs]
  · ext1 other
    by_cases same : other = pipe
    · subst same
      simp [close, detach, apart]
    · simp [close, detach, hangs, same]
  · ext1 other
    by_cases same : other = pipe
    · subst same
      simp [close, detach, leads]
    · simp [close, detach, hangs, same]

/-- Let two roots exchange their chains. -/
def exchange (side : Side Root) (one other : Root) : Side Root where
  head root := side.head (Graph.exchange one other root)
  next := side.next
  back pipe := (side.back pipe).map (·.rename (Graph.exchange one other))

namespace Chained

variable {root : Root}

/-- The first pipe of a chain. -/
theorem attach_nil (chained : side.Chained lists) (free : side.back pipe = none)
    (nothing : lists root = []) :
    (side.attach root pipe none).Chained (Function.update lists root [pipe]) where
  head one := by
    by_cases here : one = root
    · subst here
      simp [Side.attach]
    · simp [Side.attach, here, chained.head]
  strung one := by
    have final := (chained.loose pipe (chained.not_mem_of_back free)).2
    by_cases here : one = root
    · subst here
      simp [Strung, Side.attach, final]
    · rw [Function.update_of_ne here]
      refine (chained.strung one).congr fun found member => ?_
      have old : found ≠ pipe := by
        rintro rfl
        exact chained.not_mem_of_back free one member
      simp [Side.attach, old]
  loose found absent := by
    have new : found ≠ pipe := by
      rintro rfl
      exact absent root (by simp)
    have loose := chained.loose found fun one member => by
      have other : one ≠ root := by
        rintro rfl
        simp [nothing] at member
      exact absent one (by simpa [other] using member)
    simpa [Side.attach, new] using loose

/-- A further pipe of a chain. -/
theorem attach_concat {last : Pipe} (chained : side.Chained lists) (free : side.back pipe = none)
    (split : lists root = front ++ [last]) :
    (side.attach root pipe (some last)).Chained
      (Function.update lists root (front ++ [last] ++ [pipe])) where
  head one := by
    by_cases here : one = root
    · subst here
      simp [Side.attach, chained.head, split]
    · simp [Side.attach, here, chained.head]
  strung one := by
    have absent := chained.not_mem_of_back free
    have final := (chained.loose pipe absent).2
    have within : last ∈ lists root := by simp [split]
    -- Two pipes change: the new one hangs on the last one, and the last one leads to it.
    have new : pipe ≠ last := by
      rintro rfl
      exact absent root within
    by_cases here : one = root
    · subst here
      have strung := chained.strung one
      have nodup := chained.nodup one
      rw [split, strung_append] at strung
      rw [split] at nodup
      obtain ⟨early, hangs, -, -⟩ := strung
      rw [Function.update_self, strung_append, strung_append]
      refine ⟨⟨early.congr fun found member => ?_, ?_⟩, ?_⟩
      · have other : found ≠ last := by
          rintro rfl
          exact (List.nodup_append.mp nodup).2.2 found member found (by simp) rfl
        have old : found ≠ pipe := by
          rintro rfl
          exact absent one (by simp [split, member])
        simp [Side.attach, other, old]
      · simp [Strung, Side.attach, hangs, new.symm]
      · simp [Strung, Side.attach, final, new]
    · rw [Function.update_of_ne here]
      refine (chained.strung one).congr fun found member => ?_
      have other : found ≠ last := by
        rintro rfl
        exact here (chained.root_unique member within)
      have old : found ≠ pipe := by
        rintro rfl
        exact absent one member
      simp [Side.attach, other, old]
  loose found absent := by
    have here := absent root
    simp only [Function.update_self, List.mem_append, List.mem_singleton, not_or] at here
    obtain ⟨⟨early, other⟩, new⟩ := here
    have loose := chained.loose found fun one member => by
      by_cases here : one = root
      · subst here
        simp [split, early, other] at member
      · exact absent one (by simpa [here] using member)
    simpa [Side.attach, new, other] using loose

/-- A pipe without links on this side comes to the end of a list. -/
theorem attach (chained : side.Chained lists) (free : side.back pipe = none) (root : Root) :
    (side.attach root pipe (lists root).getLast?).Chained
      (Function.update lists root (lists root ++ [pipe])) := by
  rcases List.eq_nil_or_concat (lists root) with nothing | ⟨front, last, split⟩
  · rw [nothing]
    exact chained.attach_nil free nothing
  · rw [List.concat_eq_append] at split
    rw [split, List.getLast?_concat]
    exact chained.attach_concat free split

/-- The neighbours of a pipe are linked with each other when it is taken out. -/
theorem detach_strung (chained : side.Chained lists) (split : lists root = front ++ pipe :: back) :
    (side.detach pipe).Strung (.root root) (front ++ back) none := by
  obtain ⟨hangs, leads⟩ := chained.links_of_split split
  have nodup := chained.nodup root
  have strung := chained.strung root
  rw [split] at nodup strung
  rw [strung_append] at strung
  obtain ⟨early, -, -, late⟩ := strung
  obtain ⟨nodupFront, nodupRest, apart⟩ := List.nodup_append.mp nodup
  obtain ⟨absentBack, nodupBack⟩ := List.nodup_cons.mp nodupRest
  -- In front of the gap only the last pipe changes, and behind it only the first one.
  rw [strung_append]
  constructor
  · rcases List.eq_nil_or_concat front with rfl | ⟨rest, last, rfl⟩
    · trivial
    · rw [List.concat_eq_append] at *
      rw [strung_append] at early ⊢
      rw [Hook.behind_concat] at hangs
      have nodupRest := (List.nodup_append.mp nodupFront).2.2
      have untouched (found : Pipe) (member : found ∈ rest ++ [last]) :
          found ≠ pipe ∧ back.head? ≠ some found := by
        refine ⟨apart found member pipe (by simp), fun first => ?_⟩
        exact apart found member found (by simp [List.mem_of_head? first]) rfl
      refine ⟨early.1.congr fun found member => ?_, ?_⟩
      · obtain ⟨old, behind⟩ := untouched found (by simp [member])
        have other : found ≠ last := nodupRest found member last (by simp)
        simp [Side.detach, hangs, leads, old, behind, other.symm]
      · obtain ⟨old, behind⟩ := untouched last (by simp)
        simp [Strung, Side.detach, hangs, leads, old, behind, early.2.1]
  · cases back with
    | nil => trivial
    | cons first rest =>
      obtain ⟨-, leadsOn, later⟩ := late
      have untouched (found : Pipe) (member : found ∈ first :: rest) :
          found ≠ pipe ∧ (Hook.root root).behind front ≠ .pipe found := by
        refine ⟨?_, fun same => ?_⟩
        · rintro rfl
          exact absentBack member
        · exact apart found (Hook.mem_of_behind same) found (by simp [member]) rfl
      obtain ⟨old, before⟩ := untouched first (by simp)
      refine ⟨by simp [Side.detach, hangs, leads, old], ?_, later.congr fun found member => ?_⟩
      · simpa [Side.detach, hangs, old, before] using leadsOn
      · obtain ⟨old, before⟩ := untouched found (by simp [member])
        have other : first ≠ found := by
          rintro rfl
          exact (List.nodup_cons.mp nodupBack).1 member
        simp [Side.detach, hangs, leads, old, before, other]

/-- Only the chain of a pipe changes when it is taken out. -/
theorem detach_other (chained : side.Chained lists) (split : lists root = front ++ pipe :: back)
    {found : Pipe} (absent : found ∉ lists root) :
    (side.detach pipe).back found = side.back found ∧
      (side.detach pipe).next found = side.next found := by
  obtain ⟨hangs, leads⟩ := chained.links_of_split split
  rw [split] at absent
  simp only [List.mem_append, List.mem_cons, not_or] at absent
  obtain ⟨early, old, late⟩ := absent
  have before : (Hook.root root).behind front ≠ .pipe found :=
    fun same => early (Hook.mem_of_behind same)
  have behind : back.head? ≠ some found := fun first => late (List.mem_of_head? first)
  simp [Side.detach, hangs, leads, old, before, behind]

/-- Taking a pipe without links out of its chain changes nothing. -/
theorem detach_free (chained : side.Chained lists) (free : side.back pipe = none) :
    side.detach pipe = side := by
  have final := (chained.loose pipe (chained.not_mem_of_back free)).2
  obtain ⟨head, next, back⟩ := side
  dsimp only at free final
  simp only [Side.detach, mk.injEq]
  refine ⟨?_, ?_, ?_⟩ <;> ext1 found
  · simp [free]
  · by_cases same : found = pipe <;> simp_all
  · by_cases same : found = pipe <;> simp_all

/-- A pipe is erased from all lists. -/
theorem detach (chained : side.Chained lists) (pipe : Pipe) :
    (side.detach pipe).Chained fun root => (lists root).erase pipe := by
  cases hangs : side.back pipe with
  | none =>
    have same (root : Root) : (lists root).erase pipe = lists root :=
      List.erase_of_not_mem (chained.not_mem_of_back hangs root)
    simp only [same, chained.detach_free hangs]
    exact chained
  | some hook =>
    obtain ⟨root, member⟩ := chained.exists_mem_of_back hangs
    obtain ⟨front, back, split⟩ := List.append_of_mem member
    obtain ⟨hangs, leads⟩ := chained.links_of_split split
    have nodup := chained.nodup root
    rw [split] at nodup
    have absentFront : pipe ∉ front := fun early =>
      (List.nodup_append.mp nodup).2.2 pipe early pipe (by simp) rfl
    have erased : (lists root).erase pipe = front ++ back := by
      rw [split, List.erase_append_right _ absentFront, List.erase_cons_head]
    have others {one : Root} (other : one ≠ root) : pipe ∉ lists one :=
      fun member' => other (chained.root_unique member' member)
    -- Its own list is joined over the gap, and no other list has the pipe.
    refine ⟨fun one => ?_, fun one => ?_, fun found absent => ?_⟩
    · by_cases here : one = root
      · subst here
        rw [erased]
        cases front with
        | nil => simp [Side.detach, hangs, leads]
        | cons first rest =>
          have inner : (Hook.root one).behind (first :: rest) ≠ .root one :=
            fun same => absurd (Hook.root_of_behind same).1 (by simp)
          simp [Side.detach, hangs, inner, chained.head, split]
      · have elsewhere : (Hook.root root).behind front ≠ .root one :=
          fun same => here (Hook.root_of_behind same).2.symm
        rw [List.erase_of_not_mem (others here), ← chained.head]
        simp [Side.detach, hangs, elsewhere]
    · by_cases here : one = root
      · subst here
        rw [erased]
        exact chained.detach_strung split
      · rw [List.erase_of_not_mem (others here)]
        refine (chained.strung one).congr fun found there => ?_
        exact chained.detach_other split fun member => here (chained.root_unique there member)
    · by_cases same : found = pipe
      · simp [Side.detach, same]
      · have absent (one : Root) : found ∉ lists one := fun member =>
          absent one ((List.mem_erase_of_ne same).mpr member)
        obtain ⟨sameBack, sameNext⟩ := chained.detach_other split (absent root)
        rw [sameBack, sameNext]
        exact chained.loose found absent

/-- Two roots exchange their lists. -/
theorem exchange (chained : side.Chained lists) (one other : Root) :
    (side.exchange one other).Chained fun root => lists (Graph.exchange one other root) where
  head root := chained.head _
  strung root := by
    have strung := chained.strung (Graph.exchange one other root)
    have renamed : (side.exchange one other).Strung _ _ none :=
      strung.rename (Graph.exchange one other) (fun _ => rfl) (fun _ => rfl)
    rwa [Hook.rename, Graph.exchange_exchange] at renamed
  loose pipe absent := by
    have loose := chained.loose pipe fun root member =>
      absent (Graph.exchange one other root) (by rwa [Graph.exchange_exchange])
    exact ⟨by simp [Side.exchange, loose.1], loose.2⟩

end Chained

end Operations

end Side

end MidiTransport.Patchbay
