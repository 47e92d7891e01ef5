import Mathlib.Data.Stream.Init

/-!
# Grammars, and parsers that follow them

A language says what the texts of a construct mean and which texts end before the
construct is complete. A parser follows a language if it reads the texts of the language,
fails on every other text, and if on a text that ends too early it may be lost: what it
reads past the end of its input is not determined, so that it may go on.
-/

namespace Grammar

open List Pure

variable {τ ε α β γ : Type}

/-! ### Input -/

/-- What is left of the input, and what a read past its end finds in the buffer. -/
structure Input (τ : Type) where
  rest : List τ
  stale : Stream' τ

inductive Fault (ε : Type)
  | failed (error : ε)
  | outOfFuel

abbrev Parser (τ ε α : Type) := EStateM (Fault ε) (Input τ) α

/-- Read into an array of `n` elements. At the end of the input the elements that are not
read are left as they were. -/
def read (n : Nat) : Parser τ ε (List τ) := fun str =>
  let missing := n - str.rest.length
  .ok (str.rest.take n ++ str.stale.take missing) ⟨str.rest.drop n, str.stale.drop missing⟩

/-- One element; `none` at the end of the input. -/
def get : Parser τ ε (Option τ) := fun str =>
  match str.rest with
  | [] => .ok none str
  | t :: rest => .ok (some t) ⟨rest, str.stale⟩

def peek : Parser τ ε (Option τ) := fun str => .ok str.rest.head? str

variable {str next : Input τ} {a : α}
variable {q : α → Parser τ ε β}

theorem bind_ok {p : Parser τ ε α} (ran : p str = .ok a next) : (p >>= q) str = q a next := by
  simp only [bind, EStateM.bind, ran]

theorem bind_error {p : Parser τ ε α} {e : Fault ε}
    (ran : p str = .error e next) : (p >>= q) str = .error e next := by
  simp only [bind, EStateM.bind, ran]

/-! ### Languages -/

/-- `full x a`: the text `x` means `a`. `cut x`: the input ended inside the text. -/
structure Lang (τ α : Type) where
  full : List τ → α → Prop
  cut : List τ → Prop

variable {first : Lang τ α} {second : α → Lang τ β} {x y : List τ} {b : β}

namespace Lang

def pure (a : α) : Lang τ α where
  full x b := x = [] ∧ b = a
  cut _ := False

def bind (first : Lang τ α) (second : α → Lang τ β) : Lang τ β where
  full z b := ∃ x y a, z = x ++ y ∧ first.full x a ∧ (second a).full y b
  cut z := first.cut z ∨ ∃ x y a, z = x ++ y ∧ first.full x a ∧ (second a).cut y

instance : Monad (Lang τ) where
  pure := pure
  bind := bind

/-- Exactly this text. -/
def lit (text : List τ) : Lang τ PUnit where
  full x _ := x = text
  cut x := x <+: text ∧ x ≠ text

theorem full_pure (a : α) : (pure a : Lang τ α).full [] a := ⟨rfl, rfl⟩

theorem full_bind (head : first.full x a)
    (tail : (second a).full y b) : (first >>= second).full (x ++ y) b :=
  ⟨x, y, a, rfl, head, tail⟩

theorem full_lit {text : List τ} {second : PUnit → Lang τ β}
    (tail : (second ⟨⟩).full y b) : (lit text >>= second).full (text ++ y) b :=
  full_bind rfl tail

/-- The texts whose meaning passes a check. -/
def check (lang : Lang τ α) (good : α → Prop) : Lang τ α where
  full x a := lang.full x a ∧ good a
  cut := lang.cut

end Lang

/-! ### Parsers -/

/-- The outcome of a parser that ran out of fuel. -/
def Loops (r : EStateM.Result (Fault ε) (Input τ) α) : Prop := ∃ s, r = .error .outOfFuel s

def Fails (r : EStateM.Result (Fault ε) (Input τ) α) : Prop := ∃ e s, r = .error (.failed e) s

/-- Out of fuel, or at the end of the input with these elements in the buffer. -/
def Lost (r : EStateM.Result (Fault ε) (Input τ) α) (stale : Stream' τ) : Prop :=
  Loops r ∨ ∃ a, r = .ok a ⟨[], stale⟩

structure Follows (p : Nat → Parser τ ε α) (lang : Lang τ α) : Prop where
  reads : ∀ x a, lang.full x a → ∀ y stale fuel, (x ++ y).length < fuel →
    p fuel ⟨x ++ y, stale⟩ = .ok a ⟨y, stale⟩
  fails : ∀ z, (∀ x y a, z = x ++ y → ¬ lang.full x a) → ¬ lang.cut z →
    ∀ stale fuel, z.length < fuel → Fails (p fuel ⟨z, stale⟩)
  slips : ∀ z, lang.cut z → ∀ after, ∃ stale, ∀ fuel, z.length < fuel →
    Lost (p fuel ⟨z, stale⟩) after

/-- On every text that ends too early the parser may run forever. -/
def Traps (p : Nat → Parser τ ε α) (lang : Lang τ α) : Prop :=
  ∀ z, lang.cut z → ∃ stale, ∀ fuel, z.length < fuel → Loops (p fuel ⟨z, stale⟩)

/-- Nothing at the end of the input need stop these parsers. -/
def Drains (p : γ → Nat → Parser τ ε α) : Prop :=
  ∀ after, ∃ stale, ∀ c fuel, 0 < fuel → Lost (p c fuel ⟨[], stale⟩) after

/-- At the end of the input these parsers may run forever. -/
def Hangs (p : γ → Nat → Parser τ ε α) : Prop :=
  ∃ stale, ∀ c fuel, 0 < fuel → Loops (p c fuel ⟨[], stale⟩)

variable {lang : Lang τ α}
variable {p : Nat → Parser τ ε α}

theorem Follows.drains (follows : Follows p lang) (empty : lang.cut []) : Drains fun _ : γ => p := by
  intro after
  obtain ⟨stale, lost⟩ := follows.slips [] empty after
  exact ⟨stale, fun _ fuel => lost fuel⟩

theorem Loops.bind {p : Parser τ ε α} (loops : Loops (p str)) : Loops ((p >>= q) str) := by
  obtain ⟨s, ran⟩ := loops
  exact ⟨s, bind_error ran⟩

/-- A parser that is lost hands on to one that is lost at the end of the input. -/
theorem Lost.bind {p : Parser τ ε α} {between after : Stream' τ} (first : Lost (p str) between)
    (second : ∀ a, Lost (q a ⟨[], between⟩) after) : Lost ((p >>= q) str) after := by
  rcases first with loops | ⟨a, ran⟩
  · exact .inl loops.bind
  · rw [bind_ok ran]
    exact second a

theorem Drains.pure (f : γ → α) : Drains fun c (_ : Nat) => (pure (f c) : Parser τ ε α) := by
  intro after
  exact ⟨after, fun c _ _ => .inr ⟨f c, rfl⟩⟩

variable {q : γ → α → Nat → Parser τ ε β}

theorem Drains.bind {p : γ → Nat → Parser τ ε α} (first : Drains p)
    (second : Drains fun c : γ × α => q c.1 c.2) :
    Drains fun c fuel => p c fuel >>= fun a => q c a fuel := by
  intro after
  obtain ⟨between, lostSecond⟩ := second after
  obtain ⟨stale, lostFirst⟩ := first between
  refine ⟨stale, fun c fuel enough => ?_⟩
  exact (lostFirst c fuel enough).bind fun a => lostSecond (c, a) fuel enough

theorem Hangs.bind {p : γ → Nat → Parser τ ε α}
    (hangs : Hangs p) : Hangs fun c fuel => p c fuel >>= fun a => q c a fuel := by
  obtain ⟨stale, loops⟩ := hangs
  exact ⟨stale, fun c fuel enough => (loops c fuel enough).bind⟩

theorem Drains.bind_hangs {p : γ → Nat → Parser τ ε α} (drains : Drains p)
    (hangs : Hangs fun c : γ × α => q c.1 c.2) :
    Hangs fun c fuel => p c fuel >>= fun a => q c a fuel := by
  obtain ⟨between, loops⟩ := hangs
  obtain ⟨stale, lost⟩ := drains between
  refine ⟨stale, fun c fuel enough => ?_⟩
  rcases lost c fuel enough with looping | ⟨a, ran⟩
  · exact looping.bind
  · have second : Loops (q c a fuel ⟨[], between⟩) := loops (c, a) fuel enough
    rw [← bind_ok (q := fun a => q c a fuel) ran] at second
    exact second

/-! ### Combinators -/

theorem follows_pure (a : α) :
    Follows (fun _ => (pure a : Parser τ ε α)) (pure a : Lang τ α) where
  reads := by
    intro x b full y stale fuel _
    obtain ⟨rfl, rfl⟩ := full
    rfl
  fails := by
    intro z noText
    exact absurd ⟨rfl, rfl⟩ (noText [] z a rfl)
  slips z cut := cut.elim

theorem Follows.bind {q : α → Nat → Parser τ ε β} (followsFirst : Follows p first)
    (followsSecond : ∀ a, Follows (q a) (second a)) (drains : Drains q) :
    Follows (fun fuel => p fuel >>= fun a => q a fuel) (first >>= second) where
  reads := by
    intro z b full w stale fuel enough
    obtain ⟨x, y, a, rfl, fullX, fullY⟩ := full
    rw [append_assoc] at enough ⊢
    rw [bind_ok (followsFirst.reads x a fullX (y ++ w) stale fuel enough)]
    refine (followsSecond a).reads y b fullY w stale fuel ?_
    simp only [length_append] at enough ⊢
    omega
  fails := by
    intro z noText notCut stale fuel enough
    by_cases text : ∃ x y a, z = x ++ y ∧ first.full x a
    · -- the first parser is done; the second one fails on what is left
      obtain ⟨x, y, a, rfl, fullX⟩ := text
      rw [bind_ok (followsFirst.reads x a fullX y stale fuel enough)]
      refine (followsSecond a).fails y ?_ ?_ stale fuel ?_
      · intro u v b split fullU
        exact noText (x ++ u) v b (by rw [split, append_assoc]) ⟨x, u, a, rfl, fullX, fullU⟩
      · exact fun cut => notCut (.inr ⟨x, y, a, rfl, fullX, cut⟩)
      · simp only [length_append] at enough
        omega
    · obtain ⟨e, s, ran⟩ := followsFirst.fails z
        (fun x y a split fullX => text ⟨x, y, a, split, fullX⟩)
        (fun cut => notCut (.inl cut)) stale fuel enough
      exact ⟨e, s, bind_error ran⟩
  slips := by
    intro z cut after
    rcases cut with cut | ⟨x, y, a, rfl, fullX, cut⟩
    · obtain ⟨between, lostSecond⟩ := drains after
      obtain ⟨stale, lostFirst⟩ := followsFirst.slips z cut between
      refine ⟨stale, fun fuel enough => ?_⟩
      exact (lostFirst fuel enough).bind fun a => lostSecond a fuel (Nat.zero_lt_of_lt enough)
    · obtain ⟨stale, lost⟩ := (followsSecond a).slips y cut after
      refine ⟨stale, fun fuel enough => ?_⟩
      rw [bind_ok (followsFirst.reads x a fullX y stale fuel enough)]
      apply lost
      simp only [length_append] at enough
      omega

theorem Traps.hangs (traps : Traps p lang) (empty : lang.cut []) : Hangs fun _ : γ => p := by
  obtain ⟨stale, loops⟩ := traps [] empty
  exact ⟨stale, fun _ fuel enough => loops fuel enough⟩

theorem Traps.bind {q : α → Nat → Parser τ ε β} (follows : Follows p first) (hangs : Hangs q)
    (traps : ∀ a, Traps (q a) (second a)) :
    Traps (fun fuel => p fuel >>= fun a => q a fuel) (first >>= second) := by
  intro z cut
  rcases cut with cut | ⟨x, y, a, rfl, full, cut⟩
  · obtain ⟨between, loops⟩ := hangs
    obtain ⟨stale, lost⟩ := follows.slips z cut between
    refine ⟨stale, fun fuel enough => ?_⟩
    rcases lost fuel enough with looping | ⟨a, ran⟩
    · exact looping.bind
    · beta_reduce
      rw [bind_ok ran]
      exact loops a fuel (Nat.zero_lt_of_lt enough)
  · obtain ⟨stale, loops⟩ := traps a y cut
    refine ⟨stale, fun fuel enough => ?_⟩
    beta_reduce
    rw [bind_ok (follows.reads x a full y stale fuel enough)]
    apply loops
    simp only [length_append] at enough
    omega

/-! ### Sequences

A parser of several parts is a family of parsers for what follows each part, indexed by
what has been read so far. -/

/-- A construct with at least one element. -/
structure Consumes (p : Nat → Parser τ ε α) (lang : Lang τ α) : Prop extends Follows p lang where
  empty : lang.cut []

/-- A construct inside which the parser may run forever at the end of the input. -/
structure Sinks (p : Nat → Parser τ ε α) (lang : Lang τ α) : Prop extends Consumes p lang where
  traps : Traps p lang

structure FollowsAll (p : γ → Nat → Parser τ ε α) (lang : γ → Lang τ α) : Prop where
  follows : ∀ c, Follows (p c) (lang c)
  drains : Drains p

structure SinksAll (p : γ → Nat → Parser τ ε α) (lang : γ → Lang τ α) : Prop
    extends FollowsAll p lang where
  traps : ∀ c, Traps (p c) (lang c)
  hangs : Hangs p

theorem FollowsAll.pure (f : γ → α) :
    FollowsAll (fun c _ => (pure (f c) : Parser τ ε α)) (fun c => (pure (f c) : Lang τ α)) :=
  ⟨fun c => follows_pure (f c), .pure f⟩

theorem FollowsAll.bind {second : γ → α → Lang τ β} (head : Consumes p first)
    (tail : FollowsAll (fun c : γ × α => q c.1 c.2) fun c => second c.1 c.2) :
    FollowsAll (fun c fuel => p fuel >>= fun a => q c a fuel) (fun c => first >>= second c) where
  follows c := by
    apply head.toFollows.bind
    · exact fun a => tail.follows (c, a)
    · intro after
      obtain ⟨stale, lost⟩ := tail.drains after
      exact ⟨stale, fun a => lost (c, a)⟩
  drains := (head.drains head.empty).bind tail.drains

theorem SinksAll.bind {second : γ → α → Lang τ β} (head : Consumes p first)
    (tail : SinksAll (fun c : γ × α => q c.1 c.2) fun c => second c.1 c.2) :
    SinksAll (fun c fuel => p fuel >>= fun a => q c a fuel) (fun c => first >>= second c) where
  toFollowsAll := .bind head tail.toFollowsAll
  traps c := by
    apply Traps.bind head.toFollows
    · obtain ⟨stale, loops⟩ := tail.hangs
      exact ⟨stale, fun a => loops (c, a)⟩
    · exact fun a => tail.traps (c, a)
  hangs := (head.drains head.empty).bind_hangs tail.hangs

theorem Sinks.all (sinks : Sinks p lang) :
    SinksAll (fun _ : γ => p) (fun _ => lang) where
  follows _ := sinks.toFollows
  drains := sinks.drains sinks.empty
  traps _ := sinks.traps
  hangs := sinks.traps.hangs sinks.empty

/-- After the last part nothing can be missing. -/
theorem SinksAll.last (sinks : Sinks p lang) (f : γ → α → β) :
    SinksAll (fun c fuel => p fuel >>= fun a => (pure (f c a) : Parser τ ε β))
      (fun c => lang >>= fun a => (pure (f c a) : Lang τ β)) where
  toFollowsAll := .bind sinks.toConsumes (.pure fun c : γ × α => f c.1 c.2)
  traps c := by
    intro z cut
    rcases cut with cut | ⟨x, y, a, rfl, full, cut⟩
    · obtain ⟨stale, loops⟩ := sinks.traps z cut
      exact ⟨stale, fun fuel enough => (loops fuel enough).bind⟩
    · exact cut.elim
  hangs := (sinks.traps.hangs sinks.empty).bind

theorem Sinks.check (sinks : Sinks p lang) (good : α → Prop) [DecidablePred good] (error : α → ε) :
    Sinks (fun fuel => do
      let a ← p fuel
      if good a then pure a else throw (.failed (error a))) (lang.check good) where
  reads := by
    intro x a full y stale fuel enough
    rw [bind_ok (sinks.reads x a full.1 y stale fuel enough), if_pos full.2]
    rfl
  fails := by
    intro z noText notCut stale fuel enough
    by_cases text : ∃ x y a, z = x ++ y ∧ lang.full x a
    · obtain ⟨x, y, a, rfl, full⟩ := text
      rw [bind_ok (sinks.reads x a full y stale fuel enough),
        if_neg fun isGood => noText x y a rfl ⟨full, isGood⟩]
      exact ⟨error a, _, rfl⟩
    · obtain ⟨e, s, ran⟩ := sinks.fails z
        (fun x y a split full => text ⟨x, y, a, split, full⟩) notCut stale fuel enough
      exact ⟨e, s, bind_error ran⟩
  slips := by
    intro z cut after
    obtain ⟨stale, loops⟩ := sinks.traps z cut
    exact ⟨stale, fun fuel enough => .inl (loops fuel enough).bind⟩
  empty := sinks.empty
  traps := by
    intro z cut
    obtain ⟨stale, loops⟩ := sinks.traps z cut
    exact ⟨stale, fun fuel enough => (loops fuel enough).bind⟩

/-- The texts of the construct start with this element. -/
structure Opens (lang : Lang τ α) (opening : τ) : Prop where
  full : ∀ x a, lang.full x a → ∃ y, x = opening :: y
  cut : ∀ x, lang.cut x → x = [] ∨ ∃ y, x = opening :: y
  empty : lang.cut []

variable {opening : τ}

theorem opens_lit (text : List τ) (starts : text.head? = some opening)
    (second : PUnit → Lang τ α) : Opens (Lang.lit text >>= second) opening := by
  obtain ⟨rest, rfl⟩ := head?_eq_some_iff.mp starts
  constructor
  · intro x a full
    obtain ⟨x, y, _, rfl, rfl, _⟩ := full
    exact ⟨rest ++ y, rfl⟩
  · intro x cut
    rcases cut with ⟨short, _⟩ | ⟨x, y, _, rfl, rfl, _⟩
    · rw [prefix_cons_iff] at short
      exact short.imp_right fun ⟨y, isCons, _⟩ => ⟨y, isCons⟩
    · exact .inr ⟨rest ++ y, rfl⟩
  · exact .inl ⟨ nil_prefix, by simp⟩

theorem Opens.check (opens : Opens lang opening) (good : α → Prop) : Opens (lang.check good) opening where
  full x a full := opens.full x a full.1
  cut := opens.cut
  empty := opens.empty

/-! ### Literals -/

theorem read_append (x y : List τ) (stale : Stream' τ) :
    (read x.length : Parser τ ε (List τ)) ⟨x ++ y, stale⟩ = .ok x ⟨y, stale⟩ := by
  simp [read]

theorem read_short (n : Nat) (x : List τ) (stale : Stream' τ) (short : x.length ≤ n) :
    (read n : Parser τ ε (List τ)) ⟨x, stale⟩ =
      .ok (x ++ stale.take (n - x.length)) ⟨[], stale.drop (n - x.length)⟩ := by
  simp [read, take_of_length_le short, drop_of_length_le short]

/-- Read as many elements as `text` has and compare them with it. -/
def expect [DecidableEq τ] (error : ε) (text : List τ) : Parser τ ε PUnit := do
  let found ← read text.length
  if found ≠ text then throw (.failed error)

/-- An input that cannot be completed to the text fails whatever is in the buffer. -/
theorem follows_expect [DecidableEq τ] (error : ε) (text : List τ) :
    Follows (fun _ => expect error text) (Lang.lit text) where
  reads := by
    intro x a full y stale fuel _
    cases full
    rw [expect, bind_ok (read_append text y stale), if_neg (not_not_intro rfl)]
    rfl
  fails := by
    intro z noText notCut stale fuel _
    have differs : z.take text.length ++ stale.take (text.length - z.length) ≠ text := by
      intro same
      by_cases long : text.length ≤ z.length
      · rw [Nat.sub_eq_zero_of_le long, Stream'.take_zero, append_nil] at same
        have split : z = text ++ z.drop text.length := by
          conv_lhs => rw [← take_append_drop text.length z, same]
        exact noText text _ ⟨⟩ split rfl
      · rw [take_of_length_le (by omega)] at same
        refine notCut ⟨⟨_, same⟩, ?_⟩
        intro whole
        exact long (by rw [whole])
    refine ⟨error, ⟨z.drop text.length, stale.drop (text.length - z.length)⟩, ?_⟩
    have ran : (read text.length : Parser τ ε (List τ)) ⟨z, stale⟩ = .ok _ _ := rfl
    rw [expect, bind_ok ran, if_pos differs]
    rfl
  slips := by
    intro z cut after
    obtain ⟨⟨missing, rfl⟩, _⟩ := cut
    refine ⟨missing ++ₛ after, fun fuel _ => .inr ⟨⟨⟩, ?_⟩⟩
    have length : (z ++ missing).length - z.length = missing.length := by simp
    have whole : z ++ (missing ++ₛ after).take missing.length = z ++ missing := by
      rw [Stream'.take_append_of_le_length _ _ _ (Nat.le_refl _), take_length]
    rw [expect, bind_ok (read_short _ z _ (by simp)), length, whole,
      if_neg (not_not_intro rfl), Stream'.drop_append_stream]
    rfl

theorem expect_halts [DecidableEq τ] (error : ε) (text : List τ) (a : α) (str : Input τ) :
    ¬ Loops ((expect error text >>= fun _ => (pure a : Parser τ ε α)) str) := by
  have ran : (read text.length : Parser τ ε (List τ)) str = .ok _ _ := rfl
  rintro ⟨s, looping⟩
  rw [expect, bind_assoc, bind_ok ran] at looping
  split at looping <;> cases looping

/-! ### Lists -/

section Lists

variable [DecidableEq τ] (separator close : τ)

/-- Whether the list ends here. A separator is skipped, and need not be there. -/
def endOfList : Parser τ ε Bool := do
  let next ← peek
  if next = some separator then do
    let _ ← get
    return false
  else if next = some close then do
    let _ ← get
    return true
  else return false

/-- Read items until the list ends, adding each to what has been read. -/
def parseList (item : Nat → Parser τ ε β) (step : α → β → α) : Nat → α → Parser τ ε α
  | 0, _ => throw .outOfFuel
  | fuel + 1, acc => do
    let atEnd ← endOfList separator close
    if atEnd then return acc
    else do
      let b ← item (fuel + 1)
      parseList item step fuel (step acc b)

inductive ListText (item : Lang τ β) (step : α → β → α) : α → List τ → α → Prop
  | close (acc : α) : ListText item step acc [close] acc
  | item (acc : α) (b : β) (before x y : List τ) (res : α)
      (separated : before = [] ∨ before = [separator]) (text : item.full x b)
      (rest : ListText item step (step acc b) y res) :
      ListText item step acc (before ++ (x ++ y)) res

inductive ListCut (item : Lang τ β) : List τ → Prop
  | item (before x : List τ) (separated : before = [] ∨ before = [separator])
      (cut : item.cut x) : ListCut item (before ++ x)
  | rest (before x y : List τ) (b : β) (separated : before = [] ∨ before = [separator])
      (text : item.full x b) (cut : ListCut item y) : ListCut item (before ++ (x ++ y))

def Lang.list (item : Lang τ β) (step : α → β → α) (acc : α) : Lang τ α where
  full := ListText separator close item step acc
  cut := ListCut separator item

variable {separator close}

theorem endOfList_close (apart : close ≠ separator) (y : List τ) (stale : Stream' τ) :
    (endOfList separator close : Parser τ ε Bool) ⟨close :: y, stale⟩ = .ok true ⟨y, stale⟩ := by
  simp [endOfList, peek, get, bind, EStateM.bind, pure, EStateM.pure, apart]

theorem endOfList_separator (y : List τ) (stale : Stream' τ) :
    (endOfList separator close : Parser τ ε Bool) ⟨separator :: y, stale⟩ = .ok false ⟨y, stale⟩ := by
  simp [endOfList, peek, get, bind, EStateM.bind, pure, EStateM.pure]

theorem endOfList_other (z : List τ) (stale : Stream' τ) (notSeparator : z.head? ≠ some separator)
    (notClose : z.head? ≠ some close) :
    (endOfList separator close : Parser τ ε Bool) ⟨z, stale⟩ = .ok false ⟨z, stale⟩ := by
  simp [endOfList, peek, bind, EStateM.bind, pure, EStateM.pure, notSeparator, notClose]

variable {opening : τ} {item : Lang τ β} {p : Nat → Parser τ ε β} {step : α → β → α}

theorem endOfList_item (notSeparator : opening ≠ separator) (notClose : opening ≠ close)
    (before z : List τ) (stale : Stream' τ) (separated : before = [] ∨ before = [separator])
    (opens : z = [] ∨ ∃ y, z = opening :: y) :
    (endOfList separator close : Parser τ ε Bool) ⟨before ++ z, stale⟩ = .ok false ⟨z, stale⟩ := by
  rcases separated with rfl | rfl
  · apply endOfList_other
    · rcases opens with rfl | ⟨y, rfl⟩ <;> simp [notSeparator]
    · rcases opens with rfl | ⟨y, rfl⟩ <;> simp [notClose]
  · exact endOfList_separator z stale

theorem parseList_more (fuel : Nat) (acc : α) {z next : List τ} {stale : Stream' τ}
    (more : (endOfList separator close : Parser τ ε Bool) ⟨z, stale⟩ = .ok false ⟨next, stale⟩) :
    parseList separator close p step (fuel + 1) acc ⟨z, stale⟩ =
      (p (fuel + 1) >>= fun b => parseList separator close p step fuel (step acc b))
        ⟨next, stale⟩ := by
  rw [parseList, bind_ok more, if_neg (by simp)]

variable (separator close step) in
theorem parseList_hangs (hangs : Hangs fun _ : Unit => p) :
    Hangs fun acc fuel => parseList separator close p step fuel acc := by
  obtain ⟨stale, loops⟩ := hangs
  refine ⟨stale, fun acc fuel enough => ?_⟩
  obtain ⟨fuel, rfl⟩ := Nat.exists_eq_succ_of_ne_zero (Nat.ne_zero_of_lt enough)
  have more : (endOfList separator close : Parser τ ε Bool) ⟨[], stale⟩ = .ok false ⟨[], stale⟩ :=
    endOfList_other [] stale (by simp) (by simp)
  beta_reduce
  rw [Nat.succ_eq_add_one, parseList_more fuel acc more]
  exact (loops ⟨⟩ (fuel + 1) enough).bind

variable (follows : Follows p item) (opens : Opens item opening)
include follows opens

theorem parseList_reads (apart : close ≠ separator) (notSeparator : opening ≠ separator)
    (notClose : opening ≠ close) {acc res : α} (text : ListText separator close item step acc x res)
    (y : List τ) (stale : Stream' τ) (fuel : Nat) (enough : (x ++ y).length < fuel) :
    parseList separator close p step fuel acc ⟨x ++ y, stale⟩ = .ok res ⟨y, stale⟩ := by
  induction text generalizing fuel with
  | close acc =>
    obtain ⟨fuel, rfl⟩ := Nat.exists_eq_succ_of_ne_zero (Nat.ne_zero_of_lt enough)
    rw [parseList, singleton_append, bind_ok (endOfList_close apart y stale), if_pos rfl]
    rfl
  | item acc b before x z res separated text _ ih =>
    obtain ⟨fuel, rfl⟩ := Nat.exists_eq_succ_of_ne_zero (Nat.ne_zero_of_lt enough)
    obtain ⟨x', rfl⟩ := opens.full x b text
    have more := endOfList_item (ε := ε) notSeparator notClose before
      (opening :: x' ++ (z ++ y)) stale separated (.inr ⟨_, rfl⟩)
    simp only [length_append, length_cons] at enough
    rw [append_assoc, append_assoc, parseList_more fuel acc more,
      bind_ok (follows.reads _ b text (z ++ y) stale (fuel + 1)
        (by simp only [length_append, length_cons]; omega))]
    exact ih fuel (by simp only [length_append]; omega)

theorem parseList_fails (acc : α) (z : List τ)
    (noText : ∀ x y res, z = x ++ y → ¬ ListText separator close item step acc x res)
    (notCut : ¬ ListCut separator item z) (stale : Stream' τ) (fuel : Nat)
    (enough : z.length < fuel) : Fails (parseList separator close p step fuel acc ⟨z, stale⟩) := by
  induction fuel generalizing acc z with
  | zero => exact absurd enough (Nat.not_lt_zero _)
  | succ fuel ih =>
    -- what is left of the input when the next item is read
    obtain ⟨before, w, rfl, separated, more⟩ : ∃ before w, z = before ++ w ∧
        (before = [] ∨ before = [separator]) ∧
        (endOfList separator close : Parser τ ε Bool) ⟨z, stale⟩ = .ok false ⟨w, stale⟩ := by
      by_cases startsSeparator : z.head? = some separator
      · obtain ⟨w, rfl⟩ := head?_eq_some_iff.mp startsSeparator
        exact ⟨[separator], w, rfl, .inr rfl, endOfList_separator w stale⟩
      · by_cases startsClose : z.head? = some close
        · obtain ⟨w, rfl⟩ := head?_eq_some_iff.mp startsClose
          exact absurd (.close acc) (noText [close] w acc rfl)
        · exact ⟨[], z, rfl, .inl rfl, endOfList_other z stale startsSeparator startsClose⟩
    rw [parseList_more fuel acc more]
    have shorter : w.length < fuel + 1 := by
      simp only [length_append] at enough
      omega
    by_cases text : ∃ x y b, w = x ++ y ∧ item.full x b
    · obtain ⟨x, y, b, rfl, full⟩ := text
      rw [bind_ok (follows.reads x b full y stale (fuel + 1) shorter)]
      apply ih (step acc b) y
      · intro u v res split rest
        refine noText (before ++ (x ++ u)) v res (by simp [split]) ?_
        exact .item acc b before x u res separated full rest
      · exact fun cut => notCut (.rest before x y b separated full cut)
      · obtain ⟨x', rfl⟩ := opens.full x b full
        simp only [length_append, length_cons] at shorter
        omega
    · obtain ⟨e, s, ran⟩ := follows.fails w (fun x y b split full => text ⟨x, y, b, split, full⟩)
        (fun cut => notCut (.item before w separated cut)) stale (fuel + 1) shorter
      exact ⟨e, s, bind_error ran⟩

variable (step) in
/-- A list that is not closed leads to the end of the input, and from there the next item
is read, and the next. -/
theorem parseList_traps (notSeparator : opening ≠ separator) (notClose : opening ≠ close)
    (hangs : Hangs fun _ : Unit => p) {z : List τ} (cut : ListCut separator item z) :
    ∃ stale, ∀ acc fuel, z.length < fuel →
      Loops (parseList separator close p step fuel acc ⟨z, stale⟩) := by
  induction cut with
  | item before x separated cut =>
    obtain ⟨between, loops⟩ := parseList_hangs separator close step hangs
    obtain ⟨stale, lost⟩ := follows.slips x cut between
    refine ⟨stale, fun acc fuel enough => ?_⟩
    obtain ⟨fuel, rfl⟩ := Nat.exists_eq_succ_of_ne_zero (Nat.ne_zero_of_lt enough)
    have more := endOfList_item (ε := ε) notSeparator notClose before x stale separated
      (opens.cut x cut)
    rw [Nat.succ_eq_add_one, parseList_more fuel acc more]
    simp only [length_append] at enough
    rcases lost (fuel + 1) (by omega) with looping | ⟨b, ran⟩
    · exact looping.bind
    · rw [bind_ok ran]
      cases fuel with
      | zero => exact ⟨_, rfl⟩
      | succ fuel => exact loops (step acc b) (fuel + 1) (Nat.succ_pos _)
  | rest before x y b separated text _ ih =>
    obtain ⟨stale, loops⟩ := ih
    refine ⟨stale, fun acc fuel enough => ?_⟩
    obtain ⟨fuel, rfl⟩ := Nat.exists_eq_succ_of_ne_zero (Nat.ne_zero_of_lt enough)
    obtain ⟨x', rfl⟩ := opens.full x b text
    have more := endOfList_item (ε := ε) notSeparator notClose before (opening :: x' ++ y) stale
      separated (.inr ⟨_, rfl⟩)
    simp only [length_append, length_cons] at enough
    rw [Nat.succ_eq_add_one, parseList_more fuel acc more,
      bind_ok (follows.reads _ b text y stale (fuel + 1)
        (by simp only [length_append, length_cons]; omega))]
    exact loops (step acc b) fuel (by omega)

theorem sinks_list (apart : close ≠ separator) (notSeparator : opening ≠ separator)
    (notClose : opening ≠ close) (hangs : Hangs fun _ : Unit => p) (acc : α) :
    Sinks (fun fuel => parseList separator close p step fuel acc)
      (Lang.list separator close item step acc) where
  reads x res text := parseList_reads follows opens apart notSeparator notClose text
  fails z noText notCut := parseList_fails follows opens acc z noText notCut
  slips := by
    intro z cut after
    obtain ⟨stale, loops⟩ := parseList_traps step follows opens notSeparator notClose hangs cut
    exact ⟨stale, fun fuel enough => .inl (loops acc fuel enough)⟩
  empty := .item [] [] (.inl rfl) opens.empty
  traps := by
    intro z cut
    obtain ⟨stale, loops⟩ := parseList_traps step follows opens notSeparator notClose hangs cut
    exact ⟨stale, fun fuel enough => loops acc fuel enough⟩

end Lists

/-! ### More fuel -/

/-- What `p` returns `q` returns as well. -/
def Keeps (p q : Parser τ ε α) : Prop := ∀ str a next, p str = .ok a next → q str = .ok a next

theorem Keeps.refl (p : Parser τ ε α) : Keeps p p := fun _ _ _ ran => ran

theorem keeps_throw (e : Fault ε) (p : Parser τ ε α) : Keeps (throw e) p := by
  exact nofun

theorem Keeps.bind {p p' : Parser τ ε α} {q q' : α → Parser τ ε β} (first : Keeps p p')
    (second : ∀ a, Keeps (q a) (q' a)) : Keeps (p >>= q) (p' >>= q') := by
  intro str b next ran
  cases start : p str with
  | ok a between =>
    rw [bind_ok start] at ran
    rw [bind_ok (first str a between start)]
    exact second a between b next ran
  | error e between =>
    rw [bind_error start] at ran
    cases ran

theorem Keeps.ite (c : Prop) [Decidable c] {p p' q q' : Parser τ ε α} (yes : Keeps p p')
    (no : Keeps q q') : Keeps (if c then p else q) (if c then p' else q') := by
  split
  · exact yes
  · exact no

/-- What a parser returns does not change with more fuel. -/
def Steady (p : Nat → Parser τ ε α) : Prop := ∀ fuel, Keeps (p fuel) (p (fuel + 1))

theorem Steady.le (steady : Steady p) {fuel fuel' : Nat} (more : fuel ≤ fuel') :
    Keeps (p fuel) (p fuel') := by
  induction more with
  | refl => exact Keeps.refl _
  | step _ ih => exact fun str a next ran => steady _ str a next (ih str a next ran)

theorem steady_const (p : Parser τ ε α) : Steady fun _ => p := fun _ => Keeps.refl p

theorem Steady.bind {q : Nat → α → Parser τ ε β} (first : Steady p)
    (second : ∀ a, Steady fun fuel => q fuel a) : Steady fun fuel => p fuel >>= q fuel :=
  fun fuel => (first fuel).bind fun a => second a fuel

theorem steady_parseList [DecidableEq τ] {separator close : τ} {item : Nat → Parser τ ε β}
    {step : α → β → α} (steady : Steady item) (acc : α) :
    Steady fun fuel => parseList separator close item step fuel acc := by
  intro fuel
  induction fuel generalizing acc with
  | zero => exact keeps_throw _ _
  | succ fuel ih =>
    apply Keeps.bind (Keeps.refl _)
    intro atEnd
    apply Keeps.ite
    · exact Keeps.refl _
    · exact (steady (fuel + 1)).bind fun b => ih (step acc b)

end Grammar
