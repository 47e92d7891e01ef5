import Mathlib.Data.List.Basic
import Guix.LibUtil.CanonPath

/-!
# Canonical paths and component stacks

`canonPath` without symlink resolution computes the path of a stack of components. The
string `s` of its loop is this path, so that erasing from the last slash on pops the
last component.
-/

namespace Guix.LibUtil

open List

open LibStore (slash isInDir)

/-- What one component does to the stack of those kept so far. -/
def push (stack : List Bytes) (component : Bytes) : List Bytes :=
  if component = [] ∨ component = [dot] then stack
  else if component = [dot, dot] then stack.dropLast
  else stack ++ [component]

/-- The stack of components of a path. -/
def stackOf (path : Path) : List Bytes := (path.splitOn slash).foldl push []

def render (stack : List Bytes) : Bytes := stack.flatMap (slash :: ·)

/-- The path of a stack; that of the empty stack is the root. -/
def pathOf (stack : List Bytes) : Path := if stack = [] then [slash] else render stack

/-- A component that is kept. -/
structure Plain (component : Bytes) : Prop where
  ne_nil : component ≠ []
  ne_dot : component ≠ [dot]
  ne_dotdot : component ≠ [dot, dot]
  noSlash : slash ∉ component

variable {component : Bytes}

theorem push_plain (plain : Plain component) (stack : List Bytes) :
    push stack component = stack ++ [component] := by
  rw [push, if_neg (not_or.mpr ⟨plain.ne_nil, plain.ne_dot⟩), if_neg plain.ne_dotdot]

variable {stack : List Bytes}

theorem plain_push (plain : ∀ c ∈ stack, Plain c)
    (noSlash : slash ∉ component) : ∀ c ∈ push stack component, Plain c := by
  unfold push
  split
  · exact plain
  · next kept =>
    split
    · intro c listed
      exact plain c (dropLast_subset stack listed)
    · next notUp =>
      intro c listed
      rcases mem_append.mp listed with old | new
      · exact plain c old
      · rw [mem_singleton.mp new]
        exact ⟨fun empty => kept (.inl empty), fun isDot => kept (.inr isDot), notUp, noSlash⟩

/-! ### Splitting -/

theorem foldl_slash (stack : List Bytes) (i : Bytes) :
    ((slash :: i).splitOn slash).foldl push stack = (i.splitOn slash).foldl push stack := by
  rw [← nil_append (slash :: i), splitOn_append_cons_self_of_not_mem not_mem_nil]
  rfl

theorem foldl_dropWhile (stack : List Bytes) (i : Bytes) :
    ((i.dropWhile (· == slash)).splitOn slash).foldl push stack = (i.splitOn slash).foldl push stack := by
  induction i with
  | nil => rfl
  | cons c i ih =>
    rw [dropWhile_cons]
    split
    · next isSlash => rw [ih, eq_of_beq isSlash, foldl_slash]
    · rfl

variable {i : Bytes}

theorem atEnd_cases (ends : atEnd i = true) : i = [] ∨ ∃ rest, i = slash :: rest := by
  cases i with
  | nil => exact .inl rfl
  | cons c rest =>
    have isSlash : c = slash := by simpa [atEnd] using ends
    exact .inr ⟨rest, by rw [isSlash]⟩

/-- The first component is pushed first; what follows is empty or starts with a slash. -/
theorem foldl_component (stack : List Bytes) (noSlash : slash ∉ component) (ends : atEnd i = true) :
    ((component ++ i).splitOn slash).foldl push stack =
      (i.splitOn slash).foldl push (push stack component) := by
  rcases atEnd_cases ends with rfl | ⟨rest, rfl⟩
  · rw [append_nil, splitOn_eq_singleton noSlash]
    rfl
  · rw [splitOn_append_cons_self_of_not_mem noSlash, foldl_cons, foldl_slash]

variable {rest : Bytes} {c : UInt8}

theorem not_of_dropWhile {p : UInt8 → Bool} (left : i.dropWhile p = c :: rest) : p c = false := by
  have stopped := head?_dropWhile_not p i
  rw [left] at stopped
  exact stopped

theorem atEnd_dropWhile (i : Bytes) : atEnd (i.dropWhile (· != slash)) = true := by
  cases left : i.dropWhile (· != slash) with
  | nil => rfl
  | cons c rest =>
    have isSlash : c = slash := by simpa using not_of_dropWhile left
    rw [isSlash]
    rfl

theorem atEnd_iff : atEnd i = true ↔ i.takeWhile (· != slash) = [] := by
  cases i with
  | nil => simp [atEnd]
  | cons c rest => simp [atEnd, takeWhile_cons]

/-- A component that is copied is one that is kept. -/
theorem plain_component (notSlash : c ≠ slash) (notDot : ¬ (c == dot && atEnd rest) = true)
    (notDotDot : ¬ (c == dot && rest[0]? == some dot && atEnd (rest.drop 1)) = true) :
    Plain (c :: rest.takeWhile (· != slash)) where
  ne_nil := cons_ne_nil _ _
  ne_dot same := by
    obtain ⟨rfl, none⟩ := cons.inj same
    exact notDot (by rw [atEnd_iff.mpr none]; rfl)
  ne_dotdot same := by
    obtain ⟨rfl, one⟩ := cons.inj same
    cases rest with
    | nil => cases one
    | cons d rest =>
      rw [takeWhile_cons] at one
      split at one
      · obtain ⟨rfl, none⟩ := cons.inj one
        exact notDotDot (by rw [drop_one, tail_cons, atEnd_iff.mpr none]; rfl)
      · cases one
  noSlash listed := by
    rcases mem_cons.mp listed with same | inRest
    · exact notSlash same.symm
    · simpa using mem_takeWhile_imp inRest

/-! ### The string of a stack -/

theorem render_append (stack : List Bytes) (component : Bytes) :
    render (stack ++ [component]) = render stack ++ slash :: component := by
  rw [render, render, flatMap_append, flatMap_singleton]

theorem render_eq_nil : render stack = [] ↔ stack = [] := by
  cases stack with
  | nil => simp [render]
  | cons c stack => simp [render]

theorem rfind_append (front : Bytes) {back : Bytes} (notMem : c ∉ back) :
    rfind (front ++ c :: back) c = some front.length := by
  have position : (front ++ c :: back).reverse.idxOf? c = some back.length := by
    have none : back.reverse.findIdx? (· == c) = none := by
      rw [findIdx?_eq_none_iff]
      intro x listed
      simp only [beq_eq_false_iff_ne]
      intro same
      exact notMem (same ▸ mem_reverse.mp listed)
    rw [reverse_append, reverse_cons, append_assoc, idxOf?, findIdx?_append, none]
    simp [findIdx?_cons]
  rw [rfind, position, Option.map_some, length_append, length_cons]
  congr 1
  omega

/-- Erasing from the last slash on pops the last component. -/
theorem eraseFrom_render (plain : ∀ c ∈ stack, Plain c) :
    (if (render stack).isEmpty then .ok (render stack) else eraseFrom (render stack) (rfind (render stack) slash)) =
      (.ok (render stack.dropLast) : Except PathError Bytes) := by
  rcases eq_nil_or_concat' stack with rfl | ⟨front, last, rfl⟩
  · rfl
  · have isPlain := plain last (by simp)
    rw [render_append, if_neg (by simp), rfind_append _ isPlain.noSlash, eraseFrom, take_left, dropLast_concat]

/-! ### The loop -/

theorem canonLoop_eq (path : Path) (followCount : Nat) (i : Bytes) (stack : List Bytes)
    (plain : ∀ c ∈ stack, Plain c) :
    canonLoop path keepLinks followCount i (render stack) =
      .ok (render ((i.splitOn slash).foldl push stack)) := by
  generalize isRender : render stack = s
  fun_induction canonLoop path keepLinks followCount i s generalizing stack with
  | case1 followCount i s left =>
    rw [← foldl_dropWhile, left, ← isRender]
    rfl
  | case2 followCount i s c rest left isDot ih =>
    obtain ⟨isDot, ends⟩ := Bool.and_eq_true_iff.mp isDot
    have same : c :: rest = [dot] ++ rest := by rw [eq_of_beq isDot]; rfl
    rw [ih stack plain isRender, ← foldl_dropWhile stack i, left, same, foldl_component stack (by decide) ends]
    rfl
  | case3 followCount i s c rest left notDot isDotDot e failed =>
    rw [← isRender, dite_eq_ite, eraseFrom_render plain] at failed
    cases failed
  | case4 followCount i s c rest left notDot isDotDot s' popped ih =>
    obtain ⟨dots, ends⟩ := Bool.and_eq_true_iff.mp isDotDot
    obtain ⟨first, second⟩ := Bool.and_eq_true_iff.mp dots
    have same : c :: rest = [dot, dot] ++ rest.drop 1 := by
      cases rest with
      | nil => cases second
      | cons d rest =>
        have isDot : d = dot := by simpa using second
        rw [eq_of_beq first, isDot]
        rfl
    rw [← isRender, dite_eq_ite, eraseFrom_render plain] at popped
    rw [ih _ (fun c listed => plain c (dropLast_subset stack listed)) (Except.ok.inj popped),
      ← foldl_dropWhile stack i, left, same, foldl_component stack (by decide) ends]
    rfl
  | case5 followCount i s c rest left notDot notDotDot s' e failed => cases failed
  | case6 followCount i s c rest left notDot notDotDot s' rest' kept ih =>
    have notSlash : c ≠ slash := by simpa using not_of_dropWhile left
    have isPlain := plain_component notSlash notDot notDotDot
    have same : c :: rest = (c :: rest.takeWhile (· != slash)) ++ rest.dropWhile (· != slash) := by
      rw [cons_append, takeWhile_append_dropWhile]
    have pushed := push_plain isPlain stack
    rw [ih _ (pushed ▸ plain_push plain isPlain.noSlash) (by rw [render_append, isRender]),
      ← foldl_dropWhile stack i, left, same, foldl_component stack isPlain.noSlash (atEnd_dropWhile rest), pushed]
  | case7 followCount i s c rest left notDot notDotDot s' target isTarget => cases isTarget
  | case8 followCount i s c rest left notDot notDotDot s' rest' target isTarget => cases isTarget

/-! ### Stacks and their paths -/

theorem noSlash_of_mem_splitOn (path : Bytes) : ∀ c ∈ path.splitOn slash, slash ∉ c := by
  induction path with
  | nil => simp
  | cons b path ih =>
    rw [splitOn_cons_eq_if_modifyHead]
    split
    · exact forall_mem_cons.mpr ⟨not_mem_nil, ih⟩
    · next notSlash =>
      -- the byte belongs to the first component
      cases parts : path.splitOn slash with
      | nil => exact absurd parts (splitOn_ne_nil slash path)
      | cons first rest =>
        rw [parts, forall_mem_cons] at ih
        refine forall_mem_cons.mpr ⟨?_, ih.2⟩
        rw [mem_cons, not_or]
        exact ⟨fun same => notSlash (beq_iff_eq.mpr same.symm), ih.1⟩

theorem plain_foldl {components : List Bytes} (noSlash : ∀ c ∈ components, slash ∉ c)
    (plain : ∀ c ∈ stack, Plain c) : ∀ c ∈ components.foldl push stack, Plain c := by
  induction components generalizing stack with
  | nil => exact plain
  | cons component components ih =>
    exact ih (forall_mem_cons.mp noSlash).2 (plain_push plain (noSlash component mem_cons_self))

theorem plain_stackOf (path : Path) : ∀ c ∈ stackOf path, Plain c :=
  plain_foldl (noSlash_of_mem_splitOn path) (by simp)

theorem atEnd_render (stack : List Bytes) : atEnd (render stack) = true := by
  cases stack with
  | nil => rfl
  | cons c stack => rfl

section

variable (plain : ∀ c ∈ stack, Plain c)
include plain

theorem foldl_render (below : List Bytes) :
    ((render stack).splitOn slash).foldl push below = below ++ stack := by
  induction stack generalizing below with
  | nil => rw [append_nil]; rfl
  | cons c stack ih =>
    have isPlain := plain c mem_cons_self
    have split : render (c :: stack) = slash :: (c ++ render stack) := rfl
    rw [split, foldl_slash, foldl_component below isPlain.noSlash (atEnd_render stack),
      push_plain isPlain, ih (forall_mem_cons.mp plain).2,
      append_assoc, singleton_append]

theorem stackOf_render : stackOf (render stack) = stack :=
  foldl_render plain []

theorem stackOf_pathOf : stackOf (pathOf stack) = stack := by
  unfold pathOf
  split
  · next empty => rw [empty]; rfl
  · exact stackOf_render plain

omit plain in
theorem pathOf_absolute (stack : List Bytes) : (pathOf stack)[0]? = some slash := by
  cases stack with
  | nil => rfl
  | cons c stack => rfl

/-- The components of the path of a stack are the stack. -/
theorem splitOn_pathOf (nonempty : stack ≠ []) : ((pathOf stack).drop 1).splitOn slash = stack := by
  cases stack with
  | nil => exact absurd rfl nonempty
  | cons c stack =>
    have split : (pathOf (c :: stack)).drop 1 = c ++ render stack := rfl
    rw [split]
    clear split nonempty
    induction stack generalizing c with
    | nil =>
      have empty : render [] = [] := rfl
      rw [empty, append_nil, splitOn_eq_singleton (plain c mem_cons_self).noSlash]
    | cons d stack ih =>
      have split : render (d :: stack) = slash :: (d ++ render stack) := rfl
      rw [split, splitOn_append_cons_self_of_not_mem (plain c mem_cons_self).noSlash,
        ih d (forall_mem_cons.mp plain).2]

theorem pathOf_noTrailingSlash : pathOf stack = [slash] ∨ (pathOf stack).getLast? ≠ some slash := by
  rcases eq_nil_or_concat' stack with rfl | ⟨front, last, rfl⟩
  · exact .inl rfl
  · refine .inr ?_
    have isPlain := plain last (by simp)
    rw [pathOf, if_neg (by simp), render_append]
    intro ends
    -- the last byte is one of the last component
    rcases eq_nil_or_concat' last with rfl | ⟨bytes, b, rfl⟩
    · exact isPlain.ne_nil rfl
    · rw [← cons_append, ← append_assoc, getLast?_concat] at ends
      have isSlash := Option.some_inj.mp ends
      exact isPlain.noSlash (by simp [isSlash])

/-- If a slash follows `dir` in the path of a stack, `dir` is the path of the components
below some height. -/
theorem eq_render_take {dir : Bytes} (split : render stack = dir ++ slash :: rest) :
    ∃ k < stack.length, dir = render (stack.take k) := by
  induction stack generalizing dir with
  | nil =>
    have absurdity : [] = dir ++ slash :: rest := split
    simp at absurdity
  | cons c stack ih =>
    cases dir with
    | nil => exact ⟨0, Nat.zero_lt_succ _, rfl⟩
    | cons b dir =>
      obtain ⟨isSlash, split⟩ := cons.inj split
      have noSlash := (plain c mem_cons_self).noSlash
      -- the first component has no slash, so that it ends before the slash after `dir`
      have after : ∃ below, dir = c ++ below ∧ render stack = below ++ slash :: rest := by
        rcases append_eq_append_iff.mp split with ⟨below, isDir, isRest⟩ | ⟨above, isFirst, isRest⟩
        · exact ⟨below, isDir, isRest⟩
        · cases above with
          | nil => exact ⟨[], by simpa using isFirst.symm, isRest.symm⟩
          | cons b' above =>
            have isSlash' : slash = b' := (cons.inj isRest).1
            exact absurd (by simp [isFirst, isSlash']) noSlash
      obtain ⟨below, rfl, isRest⟩ := after
      obtain ⟨k, inside, rfl⟩ := ih (forall_mem_cons.mp plain).2 isRest
      exact ⟨k + 1, Nat.succ_lt_succ inside, by rw [← isSlash]; rfl⟩

theorem isInDir_pathOf {dir : Path} (inDir : isInDir (pathOf stack) dir = true) :
    ∃ rest, rest ≠ [] ∧ stack = stackOf dir ++ rest := by
  simp only [isInDir, Bool.and_eq_true, beq_iff_eq, decide_eq_true_eq] at inDir
  obtain ⟨⟨⟨_, front⟩, long⟩, next⟩ := inDir
  by_cases empty : stack = []
  · rw [empty] at long
    have one : (pathOf []).length = 1 := rfl
    omega
  · have isRender : pathOf stack = render stack := if_neg empty
    rw [isRender] at front long next
    have split : render stack = dir ++ slash :: (render stack).drop (dir.length + 1) := by
      obtain ⟨inside, isSlash⟩ := List.getElem?_eq_some_iff.mp next
      conv => lhs; rw [← take_append_drop dir.length (render stack)]
      rw [front, drop_eq_getElem_cons inside, isSlash]
    obtain ⟨k, inside, isDir⟩ := eq_render_take plain split
    refine ⟨stack.drop k, ?_, ?_⟩
    · intro none
      have short := drop_eq_nil_iff.mp none
      omega
    · rw [isDir, stackOf_render fun c listed => plain c (mem_of_mem_take listed), take_append_drop]

end

/-! ### Canonical paths -/

theorem canonPath_eq (calls : SystemCalls) {path : Path} (absolute : path[0]? = some slash) :
    canonPath calls path false = .ok (pathOf (stackOf path)) := by
  have loop := canonLoop_eq path 0 path [] (by simp)
  have start : render [] = [] := rfl
  rw [start] at loop
  rw [canonPath, if_neg Bool.false_ne_true, canonPathWith, if_neg (not_not.mpr absolute), loop]
  change Except.ok (if (render (stackOf path)).isEmpty then [slash] else render (stackOf path)) = _
  by_cases empty : stackOf path = []
  · rw [empty]
    rfl
  · have nonempty : (render (stackOf path)).isEmpty = false := by
      rw [isEmpty_eq_false_iff]
      exact fun none => empty (render_eq_nil.mp none)
    rw [nonempty, if_neg Bool.false_ne_true, pathOf, if_neg empty]

/-- `canonPath` returns the path of the component stack, which has the properties that
the daemon relies on. -/
theorem canonPath_correct (calls : SystemCalls) (path : Path) (absolute : path[0]? = some slash) :
    ∃ result, canonPath calls path false = .ok result ∧
      result = pathOf (stackOf path) ∧
      (result = [slash] ∨ ∀ c ∈ (result.drop 1).splitOn slash, c ≠ [] ∧ c ≠ [dot] ∧ c ≠ [dot, dot]) ∧
      (result = [slash] ∨ result.getLast? ≠ some slash) ∧
      canonPath calls result false = .ok result ∧
      ∀ dir, isInDir result dir = true → ∃ rest, rest ≠ [] ∧ stackOf path = stackOf dir ++ rest := by
  have plain := plain_stackOf path
  refine ⟨pathOf (stackOf path), canonPath_eq calls absolute, rfl, ?_, pathOf_noTrailingSlash plain, ?_,
    fun dir => isInDir_pathOf plain⟩
  · by_cases empty : stackOf path = []
    · rw [empty]
      exact .inl rfl
    · refine .inr ?_
      rw [splitOn_pathOf plain empty]
      intro c listed
      exact ⟨(plain c listed).ne_nil, (plain c listed).ne_dot, (plain c listed).ne_dotdot⟩
  · rw [canonPath_eq calls (pathOf_absolute (stackOf path)), stackOf_pathOf plain]

/-- A file system without symlinks. -/
def noLinks : SystemCalls := ⟨fun _ => .ok false, fun path => .error (.invalidFileName path), .ok [slash]⟩

theorem canonPath_correct_parents :
    canonPath noLinks (ascii "/../a/./b/../c//") false = .ok (ascii "/a/c") := by
  obtain ⟨result, returned, isPath, _⟩ := canonPath_correct noLinks (ascii "/../a/./b/../c//") (by decide)
  have path : pathOf (stackOf (ascii "/../a/./b/../c//")) = ascii "/a/c" := by decide
  rw [returned, isPath, path]

end Guix.LibUtil
