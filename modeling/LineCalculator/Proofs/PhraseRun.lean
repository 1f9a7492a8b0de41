import LineCalculator.Proofs.HasRead

namespace LineCalculator

def Level.Fits (l : Level) : Goal → Prop
  | .factor => True
  | .term => l.product = none
  | .expression => l = .empty

namespace Task

def Admits (task : Task) (groups : List Group) : Goal → Prop
  | .factor => True
  | .term => groups = [] → task.goal ≠ .factor
  | .expression => groups = [] → task.goal = .expression

theorem Admits.term {task : Task} {groups : List Group} (h : task.Admits groups .expression) :
    task.Admits groups .term := by
  intro hgroups hfactor
  rw [h hgroups] at hfactor
  cases hfactor

/-- A factor completes with its last lexeme. A term ends behind its product, and an expression
behind the product that its sum still has to take. -/
def ReadsPhrase (task : Task) (level : Level) (groups : List Group) (xs : List Lexeme)
    (v : Float) : Goal → Prop
  | .factor => ∃ front last s', xs = front ++ [last] ∧
      task.Passes ⟨level, groups, .operand⟩ front s' ∧
      ∀ first ∈ xs.head?,
        task.step s' last = State.complete ⟨level, groups, .operand⟩ v first.start
  | .term => task.Passes ⟨level, groups, .operand⟩ xs ⟨level, groups, .operator v⟩
  | .expression => ∃ sum product, task.Passes ⟨level, groups, .operand⟩ xs
      ⟨⟨sum, none⟩, groups, .operator product⟩ ∧ Level.total ⟨sum, none⟩ product = v

variable {task : Task} {level : Level} {groups : List Group} {xs ys zs : List Lexeme}
  {x z : Lexeme} {v a b : Float}

theorem ReadsPhrase.completes (h : task.ReadsPhrase level groups xs v .factor) :
    ∃ front last s' start, xs = front ++ [last] ∧
      task.Passes ⟨level, groups, .operand⟩ front s' ∧
      task.step s' last = State.complete ⟨level, groups, .operand⟩ v start := by
  obtain ⟨front, last, s', rfl, hfront, hlast⟩ := h
  cases front with
  | nil => exact ⟨[], last, s', last.start, rfl, hfront, hlast last rfl⟩
  | cons first front => exact ⟨first :: front, last, s', first.start, rfl, hfront, hlast first rfl⟩

theorem ReadsPhrase.passes_factor {product : Float} (h : task.ReadsPhrase level groups xs v .factor)
    (hp : level.multiply? v = some product) :
    task.Passes ⟨level, groups, .operand⟩ xs ⟨level.settled, groups, .operator product⟩ := by
  obtain ⟨front, last, s', start, rfl, hfront, hlast⟩ := h.completes
  rw [complete_eq] at hlast
  simp only [hp] at hlast
  exact hfront.append (.single hlast)

theorem readsPhrase_number (hx : x.symbol = .number v) :
    task.ReadsPhrase level groups [x] v .factor := by
  refine ⟨[], x, _, rfl, .nil _, ?_⟩
  intro first hfirst
  cases hfirst
  simp only [step, stepOperand, hx]

theorem readsPhrase_group (hx : x.symbol = .lparen) (hz : z.symbol = .rparen)
    (hlimit : task.depth ⟨level, groups, .operand⟩ < task.limit)
    (he : task.ReadsPhrase .empty (⟨x.start, level⟩ :: groups) ys v .expression) :
    task.ReadsPhrase level groups (x :: (ys ++ [z])) v .factor := by
  obtain ⟨sum, product, hys, htotal⟩ := he
  refine ⟨x :: ys, z, _, rfl, .cons (next_of_takes (.lparen hx hlimit)) hys, ?_⟩
  intro first hfirst
  cases hfirst
  simp only [step, State.stepInside, hz, htotal]

theorem readsPhrase_single (hfits : level.Fits .term)
    (hf : task.ReadsPhrase level groups xs v .factor) :
    task.ReadsPhrase level groups xs v .term := by
  obtain ⟨sum, waiting⟩ := level
  cases hfits
  exact hf.passes_factor rfl

theorem readsPhrase_multiplied {sum : Option (Float × AddOp)} {op : MulOp}
    (hx : x.symbol = .multiplicative op) (hv : op.combine? a b = some v)
    (hadmits : task.Admits groups .term)
    (ht : task.ReadsPhrase ⟨sum, none⟩ groups ys a .term)
    (hf : task.ReadsPhrase ⟨sum, some (a, op)⟩ groups zs b .factor) :
    task.ReadsPhrase ⟨sum, none⟩ groups (ys ++ x :: zs) v .term := by
  have hzs := hf.passes_factor hv
  exact Passes.append ht (.cons (next_of_takes (.multiplicative hx hadmits)) hzs)

theorem readsPhrase_added {op : AddOp} (hx : x.symbol = .additive op)
    (hadmits : task.Admits groups .expression)
    (he : task.ReadsPhrase .empty groups ys a .expression)
    (ht : task.ReadsPhrase ⟨some (a, op), none⟩ groups zs b .term) :
    task.ReadsPhrase .empty groups (ys ++ x :: zs) (op.combine a b) .expression := by
  obtain ⟨sum, product, hys, rfl⟩ := he
  exact ⟨_, _, hys.append (.cons (next_of_takes (.additive hx hadmits)) ht), rfl⟩

theorem room_inside_group {e : Phrase .expression} (start : Nat)
    (hn : NestedWithin (max task.limit 0 - task.depth ⟨level, groups, .operand⟩)
      (Phrase.group e).symbols) :
    task.depth ⟨level, groups, .operand⟩ < task.limit ∧
      NestedWithin (max task.limit 0 -
        task.depth ⟨.empty, ⟨start, level⟩ :: groups, .operand⟩) e.symbols := by
  obtain ⟨-, hin⟩ := nestedWithin_cons.1 hn
  obtain ⟨hin, -⟩ := nestedWithin_append.1 hin
  have hlimit : task.depth ⟨level, groups, .operand⟩ < task.limit := by
    have := hin.nonneg
    simp only [Symbol.weight] at this
    omega
  have hdeeper : max task.limit 0 -
      (task.depth ⟨.empty, ⟨start, level⟩ :: groups, .operand⟩ : Int) =
        max task.limit 0 - task.depth ⟨level, groups, .operand⟩ - Symbol.weight .lparen := by
    simp only [depth, List.length_cons, Symbol.weight]
    omega
  exact ⟨hlimit, by rwa [hdeeper]⟩

theorem reads_phrase {g : Goal} (p : Phrase g) (hv : p.value? = some v)
    (hs : xs.map Lexeme.symbol = p.symbols) (hfits : level.Fits g) (hadmits : task.Admits groups g)
    (hn : NestedWithin (max task.limit 0 - task.depth ⟨level, groups, .operand⟩) p.symbols) :
    task.ReadsPhrase level groups xs v g := by
  induction p generalizing level groups xs v with
  | number w =>
      cases hv
      obtain ⟨x, rfl, hx⟩ := List.map_eq_singleton_iff.1 hs
      exact readsPhrase_number hx
  | group e ih =>
      obtain ⟨x, rest, rfl, hx, hrest⟩ := List.map_eq_cons_iff.1 hs
      obtain ⟨ys, zs, rfl, hys, hzs⟩ := List.map_eq_append_iff.1 hrest
      obtain ⟨z, rfl, hz⟩ := List.map_eq_singleton_iff.1 hzs
      obtain ⟨hlimit, hin⟩ := room_inside_group x.start hn
      have he : task.ReadsPhrase .empty (⟨x.start, level⟩ :: groups) ys v .expression :=
        ih hv hys rfl (fun h => by cases h) hin
      exact readsPhrase_group hx hz hlimit he
  | single f ih => exact readsPhrase_single hfits (ih hv hs trivial trivial hn)
  | multiplied t op f iht ihf =>
      obtain ⟨sum, waiting⟩ := level
      cases hfits
      obtain ⟨a, ha, hrest⟩ := Option.bind_eq_some_iff.1 hv
      obtain ⟨b, hb, hab⟩ := Option.bind_eq_some_iff.1 hrest
      obtain ⟨ys, rest, rfl, hys, hrest⟩ := List.map_eq_append_iff.1 hs
      obtain ⟨x, zs, rfl, hx, hzs⟩ := List.map_eq_cons_iff.1 hrest
      obtain ⟨hnt, hnf⟩ := nestedWithin_append.1 hn
      obtain ⟨-, hnf⟩ := nestedWithin_cons.1 hnf
      have ht : task.ReadsPhrase ⟨sum, none⟩ groups ys a .term := iht ha hys rfl hadmits hnt
      have hf : task.ReadsPhrase ⟨sum, some (a, op)⟩ groups zs b .factor :=
        ihf hb hzs trivial trivial (by simpa [Symbol.weight, depth] using hnf)
      exact readsPhrase_multiplied hx hab hadmits ht hf
  | lone t ih =>
      cases hfits
      exact ⟨none, v, ih hv hs rfl hadmits.term hn, rfl⟩
  | added e op t ihe iht =>
      cases hfits
      obtain ⟨a, ha, hrest⟩ := Option.bind_eq_some_iff.1 hv
      obtain ⟨b, hb, rfl⟩ := Option.map_eq_some_iff.1 hrest
      obtain ⟨ys, rest, rfl, hys, hrest⟩ := List.map_eq_append_iff.1 hs
      obtain ⟨x, zs, rfl, hx, hzs⟩ := List.map_eq_cons_iff.1 hrest
      obtain ⟨hne, hnt⟩ := nestedWithin_append.1 hn
      obtain ⟨-, hnt⟩ := nestedWithin_cons.1 hnt
      have he : task.ReadsPhrase .empty groups ys a .expression := ihe ha hys rfl hadmits hne
      have ht : task.ReadsPhrase ⟨some (a, op), none⟩ groups zs b .term :=
        iht hb hzs rfl hadmits.term (by simpa [Symbol.weight, depth] using hnt)
      exact readsPhrase_added hx hadmits he ht

end Task

end LineCalculator
