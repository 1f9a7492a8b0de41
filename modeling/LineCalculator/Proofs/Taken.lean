import LineCalculator.Proofs.Ends

namespace LineCalculator

def Level.outermost : Level → List Group → Level
  | l, [] => l
  | _, g :: gs => outermost g.outside gs

def Level.Serves (l : Level) : Goal → Prop
  | .expression => True
  | .term => l.sum = none
  | .factor => l = .empty

namespace Level

variable {l : Level} {gs : List Group} {g : Goal}

theorem Serves.settled (h : l.Serves g) : l.settled.Serves g := by
  cases g with
  | expression => trivial
  | term => exact h
  | factor =>
      rw [Serves] at h
      subst h
      rfl

theorem Serves.outermost_settled (h : (l.outermost gs).Serves g) :
    (l.settled.outermost gs).Serves g := by
  cases gs with
  | nil => exact h.settled
  | cons _ _ => exact h

theorem readyBehind_empty_iff {ts : List Symbol} : empty.ReadyBehind ts ↔ ts = [] := by
  constructor
  · rintro ⟨us, vs, hu, hv, rfl⟩
    cases hu
    cases hv
    rfl
  · rintro rfl
    exact readyBehind_empty

end Level

theorem State.HasRead.eq_nil {xs : List Lexeme} (h : HasRead ⟨.empty, [], .operand⟩ xs) :
    xs = [] := by
  obtain ⟨outer, inner, ho, hi, rfl⟩ := h
  cases ho
  exact List.map_eq_nil_iff.1 (Level.readyBehind_empty_iff.1 hi)

namespace Task

variable {task : Task} {s s' : State} {x : Lexeme} {xs : List Lexeme} {ending : Ending}
  {offset : Nat}

theorem depth_of_takes (h : task.Takes s x s') :
    (task.depth s' : Int) = task.depth s + x.symbol.weight := by
  cases h with
  | number hx _ => simp [depth, hx, Symbol.weight]
  | lparen hx _ =>
      simp only [depth, List.length_cons, hx, Symbol.weight]
      omega
  | additive hx _ => simp [depth, hx, Symbol.weight]
  | multiplicative hx _ => simp [depth, hx, Symbol.weight]
  | rparen hx _ =>
      simp only [depth, List.length_cons, hx, Symbol.weight]
      omega

theorem depth_of_dividesByZero (task : Task) {q : Nat} (h : DividesByZero s x q s') :
    (task.depth s' : Int) = task.depth s + x.symbol.weight := by
  cases h with
  | number hx _ => simp [hx, Symbol.weight]
  | rparen hx _ =>
      simp only [depth, List.length_cons, hx, Symbol.weight]
      omega

theorem exists_taken (task : Task) (ending : Ending) (offset : Nat) (s : State)
    (xs : List Lexeme) :
    ∃ front, xs = front ++ (task.run ending offset s xs).rest ∧
      ((task.run ending offset s xs).depth : Int) =
        task.depth s + openCount (front.map Lexeme.symbol) := by
  induction xs generalizing s with
  | nil => exact ⟨[], rfl, (Int.add_zero _).symm⟩
  | cons x xs ih =>
      cases hx : task.step s x with
      | next s' =>
          obtain ⟨front, hxs, hdepth⟩ := ih s'
          rw [run_append_of_next hx]
          refine ⟨x :: front, congrArg (List.cons x) hxs, ?_⟩
          rw [hdepth, depth_of_takes (takes_of_next hx), List.map_cons, openCount_cons,
            Int.add_assoc]
      | done v => exact ⟨[], by simp only [run, hx, List.nil_append], by simp [run, hx]⟩
      | fail f => exact ⟨[], by simp only [run, hx, List.nil_append], by simp [run, hx]⟩
      | failPast f s' =>
          obtain ⟨q, -, hq⟩ := dividesByZero_of_failPast hx
          have hdepth := depth_of_dividesByZero task hq
          exact ⟨[x], by simp only [run, hx, List.singleton_append], by simp [run, hx, hdepth]⟩

theorem outer_le_depth_run (task : Task) (ending : Ending) (offset : Nat) (s : State)
    (xs : List Lexeme) : task.outer ≤ (task.run ending offset s xs).depth := by
  induction xs generalizing s with
  | nil => exact Nat.le_add_right ..
  | cons x xs ih =>
      cases hx : task.step s x with
      | next s' =>
          rw [run_append_of_next hx]
          exact ih s'
      | done v => simp [run, hx, depth]
      | fail f => simp [run, hx, depth]
      | failPast f s' => simp [run, hx, depth]

theorem exists_passes_of_ok {v : Float} (h : (task.run ending offset s xs).result = .ok v) :
    ∃ front level product, xs = front ++ (task.run ending offset s xs).rest ∧
      task.Passes s front ⟨level, [], .operator product⟩ ∧ v = level.total product ∧
      (task.run ending offset s xs).depth = task.outer := by
  induction xs generalizing s with
  | nil =>
      obtain ⟨level, product, rfl, rfl⟩ := finish_ok h
      exact ⟨[], level, product, rfl, .nil _, rfl, rfl⟩
  | cons x xs ih =>
      cases hx : task.step s x with
      | next s' =>
          rw [run_append_of_next hx] at h ⊢
          obtain ⟨front, level, product, hxs, hfront, hv, hdepth⟩ := ih h
          exact ⟨x :: front, level, product, congrArg (List.cons x) hxs, .cons hx hfront, hv,
            hdepth⟩
      | done w =>
          simp only [run, hx, Except.ok.injEq] at h ⊢
          subst h
          cases endsBefore_of_done hx with
          | @intro level product => exact ⟨[], level, product, rfl, .nil _, rfl, rfl⟩
      | fail f =>
          simp only [run, hx] at h
          cases h
      | failPast f s' =>
          simp only [run, hx] at h
          cases h

theorem serves_of_takes (h : task.Takes s x s')
    (hs : (s.level.outermost s.groups).Serves task.goal) :
    (s'.level.outermost s'.groups).Serves task.goal := by
  cases h with
  | number _ _ => exact hs.outermost_settled
  | lparen _ _ => exact hs
  | @additive level groups _ _ _ _ hgoal =>
      cases groups with
      | nil =>
          rw [hgoal rfl]
          trivial
      | cons g gs => exact hs
  | @multiplicative level groups _ _ _ _ hgoal =>
      cases groups with
      | nil =>
          cases hg : task.goal with
          | expression => trivial
          | term =>
              rw [hg] at hs
              exact hs
          | factor => exact absurd hg (hgoal rfl)
      | cons g gs => exact hs
  | @rparen _ g gs _ _ _ _ _ =>
      have hout : (g.outside.outermost gs).Serves task.goal := hs
      exact hout.outermost_settled

theorem Passes.serves (h : task.Passes s xs s')
    (hs : (s.level.outermost s.groups).Serves task.goal) :
    (s'.level.outermost s'.groups).Serves task.goal := by
  induction h with
  | nil s => exact hs
  | cons hx _ ih => exact ih (serves_of_takes (takes_of_next hx) hs)

theorem serves_initial (g : Goal) : (State.initial.level.outermost State.initial.groups).Serves g := by
  cases g with
  | expression => trivial
  | term => rfl
  | factor => rfl

variable {level : Level} {product : Float}

theorem exists_factor_of_passes (hgoal : task.goal = .factor)
    (h : task.Passes .initial xs ⟨level, [], .operator product⟩) :
    ∃ f : Phrase .factor, f.symbols = xs.map Lexeme.symbol ∧ f.value? = some product := by
  rcases List.eq_nil_or_concat xs with rfl | ⟨front, x, rfl⟩
  · cases h
  · rw [List.concat_eq_append] at h ⊢
    obtain ⟨s, hfront, hlast⟩ := h.exists_of_append
    have hserves := hfront.serves (serves_initial _)
    have hread := State.HasRead.initial.passes hfront
    rw [hgoal] at hserves
    rw [List.nil_append] at hread
    cases hlast with
    | cons hstep hnil =>
        cases hnil
        cases takes_of_next hstep with
        | number hx hp =>
            cases hserves
            cases hp
            rw [hread.eq_nil]
            exact ⟨.number product, by simp [Phrase.symbols, hx], rfl⟩
        | @rparen _ g _ _ _ _ hx hp =>
            obtain ⟨outside, opening, inner, e, rfl, houtside, -, hv, hs⟩ := hread.exists_group hx
            obtain ⟨opened, outer⟩ := g
            cases hserves
            cases hp
            rw [houtside.eq_nil]
            exact ⟨.group e, by simpa using hs, hv⟩

theorem exists_phrase_of_passes (h : task.Passes .initial xs ⟨level, [], .operator product⟩) :
    ∃ p : Phrase task.goal, p.symbols = xs.map Lexeme.symbol ∧
      p.value? = some (level.total product) := by
  have hserves := h.serves (serves_initial _)
  obtain ⟨outer, inner, ho, ⟨-, hreached⟩, hxs⟩ := State.HasRead.initial.passes h
  cases ho
  rw [List.nil_append, List.nil_append] at hxs
  subst hxs
  obtain ⟨goal, limit, outer⟩ := task
  cases goal with
  | expression =>
      obtain ⟨e, hv, hs⟩ := hreached.exists_expression
      exact ⟨e, hs, hv⟩
  | term =>
      obtain ⟨us, t, hu, hv, hs⟩ := hreached
      obtain ⟨sum, waiting⟩ := level
      cases hserves
      cases hu
      exact ⟨t, hs.symm, hv⟩
  | factor =>
      cases hserves
      exact exists_factor_of_passes rfl h

end Task

end LineCalculator
