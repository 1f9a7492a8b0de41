import LineCalculator.Proofs.Passage
import LineCalculator.Proofs.Phrase

namespace LineCalculator

def WaitsBehind (g : Goal) {Op : Type} (sign : Op → Symbol) :
    Option (Float × Op) → List Symbol → Prop
  | none, ts => ts = []
  | some (x, op), ts => ∃ p : Phrase g, p.value? = some x ∧ ts = p.symbols ++ [sign op]

theorem WaitsBehind.openCount {g : Goal} {Op : Type} {sign : Op → Symbol}
    {w : Option (Float × Op)} {ts : List Symbol} (h : WaitsBehind g sign w ts)
    (hsign : ∀ op, (sign op).weight = 0) : openCount ts = 0 := by
  cases w with
  | none =>
      rw [h]
      rfl
  | some w =>
      obtain ⟨p, -, rfl⟩ := h
      simp [hsign]

namespace Level

def ReadyBehind (l : Level) (ts : List Symbol) : Prop :=
  ∃ us vs, WaitsBehind .expression .additive l.sum us ∧
    WaitsBehind .term .multiplicative l.product vs ∧ ts = us ++ vs

def ReachedBehind (l : Level) (product : Float) (ts : List Symbol) : Prop :=
  ∃ us, ∃ t : Phrase .term, WaitsBehind .expression .additive l.sum us ∧
    t.value? = some product ∧ ts = us ++ t.symbols

variable {l : Level} {ts : List Symbol} {product : Float}

theorem readyBehind_empty : empty.ReadyBehind [] :=
  ⟨[], [], rfl, rfl, rfl⟩

theorem ReadyBehind.openCount (h : l.ReadyBehind ts) : openCount ts = 0 := by
  obtain ⟨us, vs, hu, hv, rfl⟩ := h
  rw [openCount_append, hu.openCount fun _ => rfl, hv.openCount fun _ => rfl]
  rfl

theorem ReachedBehind.openCount (h : l.ReachedBehind product ts) : openCount ts = 0 := by
  obtain ⟨us, t, hu, -, rfl⟩ := h
  rw [openCount_append, hu.openCount fun _ => rfl, Phrase.openCount_symbols]
  rfl

theorem ReadyBehind.reached {f : Phrase .factor} {v : Float} (h : l.ReadyBehind ts)
    (hf : f.value? = some v) (hp : l.multiply? v = some product) :
    l.settled.ReachedBehind product (ts ++ f.symbols) := by
  obtain ⟨us, vs, hu, hv, rfl⟩ := h
  obtain ⟨sum, waiting⟩ := l
  cases waiting with
  | none =>
      cases hv
      cases hp
      exact ⟨us, .single f, hu, hf, by simp [Phrase.symbols]⟩
  | some w =>
      obtain ⟨x, op⟩ := w
      obtain ⟨t, ht, rfl⟩ := hv
      refine ⟨us, .multiplied t op f, hu, ?_, by simp [Phrase.symbols]⟩
      rw [Phrase.value?, ht, hf]
      exact hp

theorem ReachedBehind.exists_expression (h : l.ReachedBehind product ts) :
    ∃ e : Phrase .expression, e.value? = some (l.total product) ∧ e.symbols = ts := by
  obtain ⟨us, t, hu, ht, rfl⟩ := h
  obtain ⟨sum, waiting⟩ := l
  cases sum with
  | none =>
      cases hu
      exact ⟨.lone t, ht, rfl⟩
  | some w =>
      obtain ⟨x, op⟩ := w
      obtain ⟨e, he, rfl⟩ := hu
      refine ⟨.added e op t, ?_, by simp [Phrase.symbols]⟩
      rw [Phrase.value?, he, ht]
      rfl

theorem ReachedBehind.awaitTerm (h : l.ReachedBehind product ts) (op : AddOp) :
    ReadyBehind ⟨some (l.total product, op), none⟩ (ts ++ [.additive op]) := by
  obtain ⟨e, he, rfl⟩ := h.exists_expression
  exact ⟨_, [], ⟨e, he, rfl⟩, rfl, by simp⟩

theorem ReachedBehind.awaitFactor (h : l.ReachedBehind product ts) (op : MulOp) :
    ReadyBehind ⟨l.sum, some (product, op)⟩ (ts ++ [.multiplicative op]) := by
  obtain ⟨us, t, hu, ht, rfl⟩ := h
  exact ⟨us, _, hu, ⟨t, ht, rfl⟩, by simp⟩

theorem ReadyBehind.exists_expression (h : l.ReadyBehind ts) (f : Phrase .factor) :
    ∃ e : Phrase .expression, e.symbols = ts ++ f.symbols := by
  obtain ⟨us, vs, hu, hv, rfl⟩ := h
  obtain ⟨sum, waiting⟩ := l
  have hterm : ∃ t : Phrase .term, t.symbols = vs ++ f.symbols := by
    cases waiting with
    | none =>
        cases hv
        exact ⟨.single f, rfl⟩
    | some w =>
        obtain ⟨t, -, rfl⟩ := hv
        exact ⟨.multiplied t w.2 f, by simp [Phrase.symbols]⟩
  obtain ⟨t, ht⟩ := hterm
  cases sum with
  | none =>
      cases hu
      exact ⟨.lone t, by simpa [Phrase.symbols] using ht⟩
  | some w =>
      obtain ⟨e, -, rfl⟩ := hu
      exact ⟨.added e w.2 t, by simp [Phrase.symbols, ht]⟩

theorem ReadyBehind.divides (h : l.ReadyBehind ts) {v : Float} (hp : l.multiply? v = none) :
    (v == 0) = true ∧ ∃ us, ts = us ++ [.multiplicative .divide] := by
  obtain ⟨us, vs, -, hv, rfl⟩ := h
  obtain ⟨sum, waiting⟩ := l
  cases waiting with
  | none => cases hp
  | some w =>
      obtain ⟨x, op⟩ := w
      obtain ⟨rfl, hzero⟩ := MulOp.combine?_eq_none_iff.1 hp
      obtain ⟨t, -, rfl⟩ := hv
      exact ⟨hzero, us ++ t.symbols, by simp⟩

end Level

inductive OpenBehind : List Group → List Lexeme → Prop
  | nil : OpenBehind [] []
  | cons {g : Group} {gs : List Group} {outer inner : List Lexeme} {x : Lexeme} :
      OpenBehind gs outer → g.outside.ReadyBehind (inner.map Lexeme.symbol) →
      x.symbol = .lparen → x.start = g.opened → OpenBehind (g :: gs) (outer ++ (inner ++ [x]))

namespace OpenBehind

variable {gs : List Group} {outer : List Lexeme}

theorem openCount (h : OpenBehind gs outer) : openCount (outer.map Lexeme.symbol) = gs.length := by
  induction h with
  | nil => rfl
  | cons _ hg hx _ ih =>
      simp [ih, hg.openCount, hx, Symbol.weight]

theorem exists_closed (h : OpenBehind gs outer) (e : Phrase .expression) :
    ∃ e' : Phrase .expression,
      e'.symbols = outer.map Lexeme.symbol ++ (e.symbols ++ List.replicate gs.length .rparen) := by
  induction h generalizing e with
  | nil => exact ⟨e, by simp⟩
  | cons _ hg hx _ ih =>
      obtain ⟨e', he'⟩ := hg.exists_expression (.group e)
      obtain ⟨e'', he''⟩ := ih e'
      exact ⟨e'', by simp [he'', he', hx, Phrase.symbols, List.replicate_succ]⟩

end OpenBehind

def State.InsideBehind (s : State) (inner : List Lexeme) : Prop :=
  match s.mode with
  | .operand => s.level.ReadyBehind (inner.map Lexeme.symbol)
  | .operator product => s.level.product = none ∧
      s.level.ReachedBehind product (inner.map Lexeme.symbol)

def State.HasRead (s : State) (xs : List Lexeme) : Prop :=
  ∃ outer inner, OpenBehind s.groups outer ∧ s.InsideBehind inner ∧ xs = outer ++ inner

namespace State.HasRead

variable {task : Task} {s s' : State} {x : Lexeme} {xs ys : List Lexeme}

theorem initial : State.initial.HasRead [] :=
  ⟨[], [], .nil, Level.readyBehind_empty, rfl⟩

theorem openCount (h : s.HasRead xs) : openCount (xs.map Lexeme.symbol) = s.groups.length := by
  obtain ⟨outer, inner, ho, hi, rfl⟩ := h
  have hinner : LineCalculator.openCount (inner.map Lexeme.symbol) = 0 := by
    unfold InsideBehind at hi
    split at hi
    · exact hi.openCount
    · exact hi.2.openCount
  rw [List.map_append, openCount_append, ho.openCount, hinner, Int.add_zero]

theorem exists_group {level : Level} {g : Group} {gs : List Group} {product : Float}
    (h : HasRead ⟨level, g :: gs, .operator product⟩ xs) (hx : x.symbol = .rparen) :
    ∃ front opening inner, ∃ e : Phrase .expression, xs = front ++ opening :: inner ∧
      HasRead ⟨g.outside, gs, .operand⟩ front ∧ opening.start = g.opened ∧
      e.value? = some (level.total product) ∧
      (Phrase.group e).symbols = (opening :: (inner ++ [x])).map Lexeme.symbol := by
  obtain ⟨outer, inner, ho, ⟨-, hreached⟩, rfl⟩ := h
  obtain ⟨e, hv, he⟩ := hreached.exists_expression
  cases ho with
  | @cons _ _ outer inner' opening ho hg hopening hstart =>
      exact ⟨outer ++ inner', opening, inner, e, by simp, ⟨outer, inner', ho, hg, rfl⟩, hstart, hv,
        by simp [Phrase.symbols, he, hopening, hx]⟩

theorem factor {level : Level} {groups : List Group} {f : Phrase .factor} {v product : Float}
    (h : HasRead ⟨level, groups, .operand⟩ xs) (hf : f.value? = some v)
    (hs : f.symbols = ys.map Lexeme.symbol) (hp : level.multiply? v = some product) :
    HasRead ⟨level.settled, groups, .operator product⟩ (xs ++ ys) := by
  obtain ⟨outer, inner, ho, hi, rfl⟩ := h
  refine ⟨outer, inner ++ ys, ho, ⟨rfl, ?_⟩, by simp⟩
  rw [List.map_append, ← hs]
  exact Level.ReadyBehind.reached hi hf hp

theorem takes (h : s.HasRead xs) (hx : task.Takes s x s') : s'.HasRead (xs ++ [x]) := by
  cases hx with
  | @number level groups x v product hx hp =>
      have hs : (Phrase.number v).symbols = [x].map Lexeme.symbol := by simp [Phrase.symbols, hx]
      exact h.factor rfl hs hp
  | lparen hx _ =>
      obtain ⟨outer, inner, ho, hi, rfl⟩ := h
      exact ⟨_, [], .cons ho hi hx rfl, Level.readyBehind_empty, by simp⟩
  | @additive level groups product x op hx _ =>
      obtain ⟨outer, inner, ho, ⟨-, hreached⟩, rfl⟩ := h
      refine ⟨outer, inner ++ [x], ho, ?_, by simp⟩
      simpa [InsideBehind, hx] using hreached.awaitTerm op
  | @multiplicative level groups product x op hx _ =>
      obtain ⟨outer, inner, ho, ⟨-, hreached⟩, rfl⟩ := h
      refine ⟨outer, inner ++ [x], ho, ?_, by simp⟩
      simpa [InsideBehind, hx] using hreached.awaitFactor op
  | rparen hx hp =>
      obtain ⟨front, opening, inner, e, rfl, hfront, -, hv, he⟩ := h.exists_group hx
      have hv' : (Phrase.group e).value? = some _ := hv
      simpa using hfront.factor hv' he hp

theorem passes (h : s.HasRead xs) (hys : task.Passes s ys s') : s'.HasRead (xs ++ ys) := by
  induction hys generalizing xs with
  | nil s => simpa using h
  | @cons s s' s'' x ys hx _ ih =>
      have hxs := h.takes (Task.takes_of_next hx)
      simpa using ih hxs

theorem exists_closed_factor {level : Level} {groups : List Group}
    (h : HasRead ⟨level, groups, .operand⟩ xs) (f : Phrase .factor) :
    ∃ e : Phrase .expression, e.symbols =
      xs.map Lexeme.symbol ++ (f.symbols ++ List.replicate groups.length .rparen) := by
  obtain ⟨outer, inner, ho, hi, rfl⟩ := h
  obtain ⟨e, he⟩ := Level.ReadyBehind.exists_expression hi f
  obtain ⟨e', he'⟩ := ho.exists_closed e
  exact ⟨e', by simp [he', he]⟩

theorem exists_completion (h : s.HasRead xs) :
    ∃ rest, (∀ y ∈ rest, y.weight ≤ 0) ∧
      ∃ e : Phrase .expression, e.symbols = xs.map Lexeme.symbol ++ rest := by
  obtain ⟨level, groups, mode⟩ := s
  have hclosing : ∀ y ∈ List.replicate groups.length Symbol.rparen, y.weight ≤ 0 := by
    intro y hy
    rw [(List.mem_replicate.1 hy).2]
    simp [Symbol.weight]
  cases mode with
  | operand =>
      obtain ⟨e, he⟩ := h.exists_closed_factor (.number 0)
      refine ⟨.number 0 :: List.replicate groups.length .rparen, ?_, e, he⟩
      intro y hy
      rcases List.mem_cons.1 hy with rfl | hy
      · simp [Symbol.weight]
      · exact hclosing y hy
  | operator product =>
      obtain ⟨outer, inner, ho, ⟨-, hreached⟩, rfl⟩ := h
      obtain ⟨e, -, he⟩ := hreached.exists_expression
      obtain ⟨e', he'⟩ := ho.exists_closed e
      exact ⟨List.replicate groups.length .rparen, hclosing, e', by simp [he', he]⟩

theorem divides {level : Level} {groups : List Group} {v : Float}
    (h : HasRead ⟨level, groups, .operand⟩ xs) (hp : level.multiply? v = none) :
    (v == 0) = true ∧ ∃ front slash, xs = front ++ [slash] ∧
      slash.symbol = .multiplicative .divide := by
  obtain ⟨outer, inner, ho, hi, rfl⟩ := h
  obtain ⟨hzero, us, hus⟩ := Level.ReadyBehind.divides hi hp
  obtain ⟨front, back, rfl, -, hback⟩ := List.map_eq_append_iff.1 hus
  obtain ⟨slash, rfl, hslash⟩ := List.map_eq_singleton_iff.1 hback
  exact ⟨hzero, outer ++ front, slash, by simp, hslash⟩

end State.HasRead

end LineCalculator
