import ModuleSplit.Import.Select
import ModuleSplit.Proofs.Declaration.Phrase
import ModuleSplit.Proofs.Tree.Refusals

namespace ModuleSplit

open List Text

namespace ModuleName

variable {m s : Text} {steps : List Text}

theorem mem_pushStep {step : Text} (member : s ∈ pushStep steps step) : s ∈ steps ∨ (s = step ∧ s ≠ []) := by
  unfold pushStep at member
  split at member
  · exact .inl member
  · rename_i filled
    rw [Bool.or_eq_true, not_or, List.isEmpty_iff] at filled
    have pushed : ∀ {others : List Text}, (∀ t ∈ others, t ∈ steps) → s ∈ step :: others → s ∈ steps ∨ (s = step ∧ s ≠ []) := by
      intro others known listed
      rcases List.mem_cons.mp listed with rfl | later
      · exact .inr ⟨rfl, filled.1⟩
      · exact .inl (known s later)
    split at member
    · split at member
      · split at member
        · exact pushed (fun _ known => known) member
        · exact .inl (List.mem_cons_of_mem _ member)
      · exact pushed (by simp) member
    · exact pushed (fun _ known => known) member

theorem mem_foldl_pushStep {found : List Text} (member : s ∈ steps.foldl pushStep found) : s ∈ found ∨ (s ∈ steps ∧ s ≠ []) := by
  induction steps generalizing found with
  | nil => exact .inl member
  | cons step steps ih =>
    rcases ih member with early | ⟨later, filled⟩
    · rcases mem_pushStep early with known | ⟨rfl, filled⟩
      · exact .inl known
      · exact .inr ⟨List.mem_cons_self, filled⟩
    · exact .inr ⟨List.mem_cons_of_mem _ later, filled⟩

theorem rebase_steps (depth : Nat) (m : Text) : rebase depth m = m ∨ rebase depth m = ['.'] ∨
    ∃ steps : List Text, rebase depth m = joinWith "/" steps ∧ ∀ s ∈ steps, s ≠ [] ∧ '/' ∉ s ∧ ∀ c ∈ s, c = '.' ∨ c ∈ m := by
  unfold rebase
  split
  · exact .inl rfl
  · unfold normalize
    split
    · exact .inr (.inl rfl)
    · refine .inr (.inr ⟨_, rfl, fun s member => ?_⟩)
      rcases mem_foldl_pushStep (List.mem_reverse.mp member) with none | ⟨step, filled⟩
      · cases none
      · refine ⟨filled, ?_⟩
        rcases List.mem_append.mp step with up | own
        · rw [(List.mem_replicate.mp up).2]
          exact ⟨by decide, fun c dot => .inl (by simpa using dot)⟩
        · exact ⟨not_mem_splitOn '/' m s own, fun c inside => .inr (mem_of_splitOn own inside)⟩

theorem mem_rebase {depth : Nat} {c : Char} (member : c ∈ rebase depth m) : c ∈ m ∨ c = '.' ∨ c = '/' := by
  rcases rebase_steps depth m with same | root | ⟨steps, joined, made⟩
  · rw [same] at member
    exact .inl member
  · rw [root] at member
    exact .inr (.inl (by simpa using member))
  · rw [joined] at member
    rcases mem_joinWith member with slash | ⟨s, listed, inside⟩
    · exact .inr (.inr (by simpa using slash))
    · exact ((made s listed).2.2 c inside).symm.imp_right .inl

end ModuleName

theorem Import.rebase_eq (i : Import) (depth : Nat) :
    i.rebase depth = {i with source := ModuleName.rebase depth i.source, raw := (i.rebase depth).raw} := by
  unfold rebase
  dsimp only
  split
  · rename_i same
    rw [same]
  · rfl

@[simp] theorem Import.rebase_source (i : Import) (depth : Nat) : (i.rebase depth).source = ModuleName.rebase depth i.source := by
  rw [rebase_eq]

@[simp] theorem Import.rebase_names (i : Import) (depth : Nat) : (i.rebase depth).names = i.names := by
  rw [rebase_eq]
  rfl

namespace Path

def climb (parts : List Text) (part : Text) : List Text :=
  if !isPart part then parts else if part = "..".toList then parts.tail else part :: parts

def step (root : PathRoot) : List Text → Text → List Text :=
  if root = .relative then ModuleName.pushStep else climb

def normalized (p : Path) : Path := ⟨p.root, (p.parts.foldl (step p.root) []).reverse⟩

def resolve (directory : Path) (name : Text) : Path := (directory.join (ofText name)).normalized

structure IsDirectoryName (n : Text) : Prop where
  isPart : isPart n = true
  down : n ≠ "..".toList
  slash : '/' ∉ n

end Path

open ModuleSplit.Path

structure IsWalk {σ : Type} (step : σ → Text → σ) : Prop where
  stay : ∀ s x, isPart x = false → step s x = s
  back : ∀ s x, isPart x = true → x ≠ "..".toList → step (step s x) "..".toList = s

theorem Path.isPart_eq (x : Text) : isPart x = !(x.isEmpty || decide (x = ['.'])) := by
  rw [Bool.eq_iff_iff]
  simp [isPart]

theorem climb_isWalk : IsWalk climb := by
  constructor
  · intro s x idle
    exact if_pos (by rw [idle]; rfl)
  · intro s x part down
    have onto : climb s x = x :: s := (if_neg (by simp [part])).trans (if_neg down)
    rw [onto]
    rfl

namespace ModuleName

theorem pushStep_down {x : Text} (part : isPart x = true) (down : x ≠ "..".toList)
    (steps : List Text) : pushStep steps x = x :: steps := by
  rw [isPart_eq, Bool.not_eq_true'] at part
  exact (if_neg (by simp [part])).trans (if_neg down)

theorem pushStep_isWalk : IsWalk pushStep := by
  constructor
  · intro s x idle
    rw [isPart_eq, Bool.not_eq_false'] at idle
    exact if_pos idle
  · intro s x part down
    rw [pushStep_down part down]
    exact if_neg down

theorem pushStep_cases (steps : List Text) (x : Text) : (isPart x = false ∧ pushStep steps x = steps) ∨
      (isPart x = true ∧ pushStep steps x = x :: steps) ∨
      (x = "..".toList ∧ ∃ last, last ≠ "..".toList ∧ steps = last :: pushStep steps x) := by
  cases part : isPart x with
  | false => exact .inl ⟨rfl, pushStep_isWalk.stay steps x part⟩
  | true =>
    right
    by_cases up : x = "..".toList
    · subst up
      cases steps with
      | nil => exact .inl ⟨rfl, rfl⟩
      | cons last rest =>
        by_cases again : last = "..".toList
        · exact .inl ⟨rfl, if_pos again⟩
        · refine .inr ⟨rfl, last, again, ?_⟩
          exact congrArg (last :: ·) (if_neg again : _ = rest).symm
    · exact .inl ⟨rfl, pushStep_down part up steps⟩

end ModuleName

namespace IsWalk

open ModuleName

variable {σ : Type} {step : σ → Text → σ} (walk : IsWalk step)

include walk

theorem foldl_filter (xs : List Text) (s : σ) : (xs.filter isPart).foldl step s = xs.foldl step s := by
  induction xs generalizing s with
  | nil => rfl
  | cons x xs ih =>
    cases part : isPart x with
    | true => rw [filter_cons_of_pos part, foldl_cons, foldl_cons, ih]
    | false =>
      rw [filter_cons_of_neg (by simp [part]), foldl_cons, walk.stay s x part, ih]

theorem foldl_pushStep (xs : List Text) {onto : List Text} (parts : ∀ x ∈ onto, isPart x = true)
    (s : σ) : (xs.foldl pushStep onto).reverse.foldl step s = xs.foldl step (onto.reverse.foldl step s) := by
  induction xs generalizing onto with
  | nil => rfl
  | cons x xs ih =>
    rw [foldl_cons, foldl_cons]
    rcases pushStep_cases onto x with ⟨idle, same⟩ | ⟨part, same⟩ | ⟨rfl, last, down, same⟩
    · rw [same, walk.stay _ x idle, ih parts]
    · rw [same, ih (forall_mem_cons.mpr ⟨part, parts⟩), reverse_cons, foldl_append]
      rfl
    · rw [same, forall_mem_cons] at parts
      rw [ih parts.2]
      conv => rhs; rw [same, reverse_cons, foldl_append]
      exact congrArg (xs.foldl step) (walk.back _ last parts.1 down).symm

theorem foldl_up {names : List Text} (below : ∀ n ∈ names, IsDirectoryName n) (s : σ) :
    (List.replicate names.length "..".toList).foldl step (names.foldl step s) = s := by
  induction names generalizing s with
  | nil => rfl
  | cons n names ih =>
    rw [forall_mem_cons] at below
    have reached := ih below.2 (step s n)
    rw [length_cons, replicate_succ', foldl_append]
    exact (congrArg (step · _) reached).trans (walk.back s n below.1.isPart below.1.down)

end IsWalk

namespace ModuleName

def rebasedSteps (depth : Nat) (m : Text) : List Text :=
  ((Text.splitOn '/' m).foldl pushStep (List.replicate depth "..".toList)).reverse

theorem foldl_pushStep_up (a b : Nat) : (List.replicate a "..".toList).foldl pushStep (List.replicate b "..".toList) =
      List.replicate (a + b) "..".toList := by
  induction a generalizing b with
  | zero => simp
  | succ a ih =>
    have onto : pushStep (List.replicate b "..".toList) "..".toList = List.replicate (b + 1) "..".toList := by cases b <;> rfl
    rw [replicate_succ, foldl_cons, onto, ih]
    congr 1
    omega

theorem foldl_pushStep_front (xs ups : List Text) (up : ∀ x ∈ ups, x = "..".toList)
    (more : List Text) : ∃ rest, xs.foldl pushStep (more ++ ups) = rest ++ ups := by
  induction xs generalizing more with
  | nil => exact ⟨more, rfl⟩
  | cons x xs ih =>
    rw [foldl_cons]
    rcases pushStep_cases (more ++ ups) x with ⟨-, same⟩ | ⟨-, same⟩ | ⟨-, last, down, same⟩
    · rw [same]
      exact ih more
    · rw [same, ← cons_append]
      exact ih (x :: more)
    · cases more with
      | nil =>
        rw [nil_append] at same
        exact absurd (up last (by rw [same]; simp)) down
      | cons c more =>
        obtain ⟨-, rest⟩ := List.cons.inj same
        rw [← rest]
        exact ih more

theorem rebasedSteps_front (depth : Nat) (m : Text) :
    ∃ rest, rebasedSteps depth m = List.replicate depth "..".toList ++ rest := by
  obtain ⟨rest, whole⟩ := foldl_pushStep_front (Text.splitOn '/' m) (List.replicate depth "..".toList)
    (fun x member => eq_of_mem_replicate member) []
  rw [nil_append] at whole
  refine ⟨rest.reverse, ?_⟩
  rw [rebasedSteps, whole, reverse_append, reverse_replicate]

theorem rebasedSteps_slash (depth : Nat) (m : Text) : ∀ s ∈ rebasedSteps depth m, '/' ∉ s := by
  intro s member
  rcases mem_foldl_pushStep (mem_reverse.mp member) with up | ⟨own, -⟩
  · rw [eq_of_mem_replicate up]
    decide
  · exact not_mem_splitOn '/' m s own

theorem foldl_rebasedSteps {σ : Type} {step : σ → Text → σ} (walk : IsWalk step) (depth : Nat)
    (m : Text) (s : σ) : (rebasedSteps depth m).foldl step s =
      (Text.splitOn '/' m).foldl step ((List.replicate depth "..".toList).foldl step s) := by
  have parts : ∀ x ∈ List.replicate depth "..".toList, isPart x = true := by
    intro x member
    rw [eq_of_mem_replicate member]
    rfl
  rw [rebasedSteps, walk.foldl_pushStep _ parts, reverse_replicate]

section Deeper

variable {depth : Nat} {m : Text} (deeper : depth ≠ 0) (relative : startsWith m "." = true)

include deeper

theorem rebasedSteps_first (m : Text) : ∃ rest, rebasedSteps depth m = "..".toList :: rest := by
  obtain ⟨rest, front⟩ := rebasedSteps_front depth m
  obtain ⟨k, rfl⟩ := Nat.exists_eq_succ_of_ne_zero deeper
  exact ⟨_, front⟩

include relative

theorem rebase_eq : rebase depth m = joinWith "/" (rebasedSteps depth m) := by
  obtain ⟨rest, first⟩ := rebasedSteps_first deeper m
  have up := foldl_pushStep_up depth 0
  have steps : ((List.replicate depth "..".toList ++ Text.splitOn '/' m).foldl pushStep []).reverse = rebasedSteps depth m := by
    rw [foldl_append]
    exact congrArg (fun onto => ((Text.splitOn '/' m).foldl pushStep onto).reverse) up
  unfold rebase normalize
  rw [if_neg (by simp [deeper, relative]), steps, first]

theorem splitOn_rebase : Text.splitOn '/' (rebase depth m) = rebasedSteps depth m := by
  obtain ⟨rest, first⟩ := rebasedSteps_first deeper m
  rw [rebase_eq deeper relative, splitOn_eq]
  exact splitOn_intercalate '/' (rebasedSteps_slash depth m) (by simp [first])

theorem rebase_relative : startsWith (rebase depth m) "." = true := by
  obtain ⟨rest, first⟩ := rebasedSteps_first deeper m
  rw [rebase_eq deeper relative, first, startsWith_iff]
  cases rest with
  | nil => exact ⟨_, rfl⟩
  | cons next rest => exact ⟨_, rfl⟩

end Deeper

@[simp] theorem rebase_zero (m : Text) : rebase 0 m = m := rfl

theorem rebase_fixed {m : Text} (fixed : startsWith m "." = false) (depth : Nat) : rebase depth m = m := if_pos (by simp [fixed])

theorem rebase_add (a b : Nat) (m : Text) : rebase b (rebase a m) = rebase (a + b) m := by
  cases relative : startsWith m "." with
  | false => rw [rebase_fixed relative, rebase_fixed relative, rebase_fixed relative]
  | true =>
    by_cases first : a = 0
    · rw [first, rebase_zero, Nat.zero_add]
    by_cases second : b = 0
    · rw [second, rebase_zero, Nat.add_zero]
    have outer := rebase_eq second (rebase_relative first relative)
    rw [rebasedSteps, splitOn_rebase first relative, foldl_rebasedSteps pushStep_isWalk, foldl_pushStep_up] at outer
    rw [outer, rebase_eq (by omega) relative, rebasedSteps]

end ModuleName

namespace Path

open ModuleName

theorem readRoot_relative {name : Text} (relative : startsWith name "." = true) : readRoot name = .relative := by
  obtain ⟨rest, rfl⟩ := startsWith_iff.mp relative
  rfl

theorem IsDirectoryName.child {n : Text} (below : IsDirectoryName n) (p : Path) : p.child n = ⟨p.root, p.parts ++ [n]⟩ := by
  have root : readRoot n = .relative := by
    cases n with
    | nil => rfl
    | cons c n =>
      have apart : c ≠ '/' := by
        rintro rfl
        exact below.slash mem_cons_self
      simp [readRoot, apart]
  have part : ofText n = ⟨.relative, [n]⟩ := by
    rw [ofText, root, Text.splitOn_eq_singleton below.slash, filter_cons_of_pos below.isPart]
    rfl
  rw [Path.child, part]
  rfl

theorem foldl_child {names : List Text} (below : ∀ n ∈ names, IsDirectoryName n) (p : Path) :
    names.foldl child p = ⟨p.root, p.parts ++ names⟩ := by
  induction names generalizing p with
  | nil => simp
  | cons n names ih =>
    rw [forall_mem_cons] at below
    rw [foldl_cons, below.1.child, ih below.2]
    simp

theorem step_isWalk (root : PathRoot) : IsWalk (step root) := by
  unfold step
  split
  · exact pushStep_isWalk
  · exact climb_isWalk

theorem resolve_eq (directory : Path) {name : Text} (relative : startsWith name "." = true) :
    directory.resolve name = ⟨directory.root, ((Text.splitOn '/' name).foldl (step directory.root)
      (directory.parts.foldl (step directory.root) [])).reverse⟩ := by
  have joined : directory.join (ofText name) = ⟨directory.root, directory.parts ++ (Text.splitOn '/' name).filter isPart⟩ := by
    rw [join, ofText, readRoot_relative relative]
    rfl
  rw [resolve, joined, normalized, foldl_append, (step_isWalk _).foldl_filter]

theorem resolve_rebase (directory : Path) {names : List Text}
    (below : ∀ n ∈ names, IsDirectoryName n) {m : Text} (relative : startsWith m "." = true) :
    (names.foldl child directory).resolve (rebase names.length m) = directory.resolve m := by
  by_cases none : names = []
  · subst none
    rfl
  · have deeper : names.length ≠ 0 := by simpa using none
    have walk := step_isWalk directory.root
    rw [foldl_child below, resolve_eq _ (rebase_relative deeper relative), resolve_eq _ relative]
    dsimp only
    rw [splitOn_rebase deeper relative, foldl_append, foldl_rebasedSteps walk, walk.foldl_up below]

end Path

end ModuleSplit
