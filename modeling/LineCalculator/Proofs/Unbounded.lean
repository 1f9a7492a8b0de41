import LineCalculator.Proofs.DescentAgreement
import LineCalculator.Proofs.Standing

namespace LineCalculator

/-- An expression begins to be read, so many of them being read by then, or one token gives way to
the next. -/
inductive Event where
  | entered (count : Nat)
  | advanced (s s' : Scanned)
  deriving DecidableEq, Repr

inductive Call where
  | expression (around : Nat)
  | sums (around : Nat) (sum : Float)
  | term (around : Nat)
  | products (around : Nat) (product : Float)
  | factor (around : Nat)

structure Course where
  place : Place
  events : List Event

abbrev Unbounded (α : Type) : Type :=
  ExceptT Halt (StateT Course Option) α

namespace Unbounded

variable {α β : Type}

def lift (y : Descent α) : Unbounded α :=
  fun c => some ((y c.place).1, { c with place := (y c.place).2 })

def record (e : Event) : Unbounded Unit :=
  fun c => some (.ok (), { c with events := c.events ++ [e] })

section Procedures

variable (line : Text) (limit : Int)

def advance : Unbounded Unit := do
  let s ← lift Descent.seen
  lift (Descent.advance line)
  let s' ← lift Descent.seen
  record (.advanced s s')

def closeGroup (v : Float) : Unbounded Float := do
  let s ← lift Descent.seen
  if s.token.kind = .rparen then
    advance line
    let d ← lift Descent.depth
    lift (Descent.setDepth (d - 1))
    return v
  else lift (Descent.raise (.failure ⟨.missingClosingParen, s.start⟩))

end Procedures

end Unbounded

open Unbounded in
def Call.run (line : Text) (limit : Int) (call : Call) : Unbounded Float :=
  match call with
  | .expression around => do
      record (.entered (around + 1))
      let v ← Call.term (around + 1) |>.run line limit
      Call.sums (around + 1) v |>.run line limit
  | .sums around sum => do
      let s ← lift Descent.seen
      if s.token.kind ∈ Descent.additives.map Prod.fst then
        let apply ← lift (Descent.checked (Misuse.entry Descent.additives s.token.kind))
        advance line
        let right ← Call.term around |>.run line limit
        Call.sums around (apply sum right) |>.run line limit
      else return sum
  | .term around => do
      let v ← Call.factor around |>.run line limit
      Call.products around v |>.run line limit
  | .products around product => do
      let s ← lift Descent.seen
      if s.token.kind ∈ Descent.multiplicatives.map Prod.fst then
        advance line
        let s' ← lift Descent.seen
        let right ← Call.factor around |>.run line limit
        if s.token.kind = .divide ∧ (right == 0) = true then
          lift (Descent.raise (.failure ⟨.divisionByZero, s'.start⟩))
        else
          let apply ← lift (Descent.checked (Misuse.entry Descent.multiplicatives s.token.kind))
          let product' ← lift (Descent.checked (apply product right))
          Call.products around product' |>.run line limit
      else return product
  | .factor around => do
      let s ← lift Descent.seen
      if s.token.kind = .number then
        let v ← lift (Descent.checked (Misuse.value s.token))
        advance line
        return v
      else if s.token.kind = .lparen then
        let d ← lift Descent.depth
        if limit ≤ d then lift (Descent.raise (.failure ⟨.nestingTooDeep, s.start⟩))
        else
          lift (Descent.setDepth (d + 1))
          advance line
          let v ← Call.expression around |>.run line limit
          closeGroup line v
      else lift (Descent.unexpected line unexpectedOperand)
partial_fixpoint

namespace Unbounded

def evaluate (line : Text) (limit : Int) : Unbounded Float := do
  let s ← lift Descent.seen
  lift (Descent.setSeen { s with stop := 0 })
  lift (Descent.setDepth 0)
  advance line
  let v ← (Call.expression 0).run line limit
  let s' ← lift Descent.seen
  if s'.token.kind = .endOfLine then return v
  else lift (Descent.unexpected line Lexed.unexpectedRest)

def read (line : Text) (limit : Int) : Goal → Unbounded Float
  | .expression => (Call.expression 0).run line limit
  | .term => (Call.term 0).run line limit
  | .factor => (Call.factor 0).run line limit

section Binds

variable {α β : Type} {x : Unbounded α} {f : α → Unbounded β} {c c' : Course}

theorem bind_of_ok {a : α} (h : x c = some (.ok a, c')) : (x >>= f) c = f a c' := by
  change (x c).bind (fun r => _) = _
  rw [h]
  rfl

theorem bind_of_error {h : Halt} (hx : x c = some (.error h, c')) :
    (x >>= f) c = some (.error h, c') := by
  change (x c).bind (fun r => _) = _
  rw [hx]
  rfl

end Binds

theorem advance_eq (line : Text) (p : Place) (before : List Event) :
    advance line ⟨p, before⟩ = some (.ok (), ⟨⟨scan line p.seen.stop, p.depth⟩,
      before ++ [.advanced p.seen (scan line p.seen.stop)]⟩) := by
  have hseen (q : Place) : lift Descent.seen ⟨q, before⟩ = some (.ok q.seen, ⟨q, before⟩) := rfl
  have hmoved : lift (Descent.advance line) ⟨p, before⟩ =
      some (.ok (), ⟨⟨scan line p.seen.stop, p.depth⟩, before⟩) := by
    rw [lift, Descent.advance_eq]
  rw [advance, bind_of_ok (hseen p), bind_of_ok hmoved, bind_of_ok (hseen _)]
  rfl

end Unbounded

def Event.isAdvance : Event → Bool
  | .advanced _ _ => true
  | .entered _ => false

/-- No more expressions are read at once than the bound allows, and each token that gives way to the
next is no ending and stands in front of it. -/
structure Orderly (bound : Int) (start stop : Nat) (events : List Event) : Prop where
  entered_le : ∀ n : Nat, .entered n ∈ events → (n : Int) ≤ bound
  advanced : ∀ s s', .advanced s s' ∈ events → (∀ e, s.token ≠ .ending e) ∧ s.start < s'.start
  count_le : start + events.countP Event.isAdvance ≤ stop

namespace Orderly

variable {bound : Int} {i j k : Nat} {es fs : List Event}

theorem nil (bound : Int) (i : Nat) : Orderly bound i i [] :=
  ⟨fun _ h => absurd h List.not_mem_nil, fun _ _ h => absurd h List.not_mem_nil, Nat.le_refl _⟩

theorem append (h : Orderly bound i j es) (h' : Orderly bound j k fs) :
    Orderly bound i k (es ++ fs) := by
  constructor
  case entered_le =>
    intro n hn
    exact (List.mem_append.1 hn).elim (h.entered_le n) (h'.entered_le n)
  case advanced =>
    intro s s' hs
    exact (List.mem_append.1 hs).elim (h.advanced s s') (h'.advanced s s')
  case count_le =>
    have hcount := h.count_le
    have hcount' := h'.count_le
    rw [List.countP_append]
    omega

theorem entered {n : Nat} (hn : (n : Int) ≤ bound) (i : Nat) : Orderly bound i i [.entered n] := by
  constructor
  case entered_le =>
    intro m hm
    cases List.mem_singleton.1 hm
    exact hn
  case advanced =>
    intro s s' hs
    cases List.mem_singleton.1 hs
  case count_le => exact Nat.le_refl _

theorem advance {s s' : Scanned} {x : Symbol} (hs : s.token = .symbol x) (hlt : s.start < s'.start)
    (bound : Int) : Orderly bound s.start s'.start [.advanced s s'] := by
  constructor
  case entered_le =>
    intro n hn
    cases List.mem_singleton.1 hn
  case advanced =>
    intro t t' ht
    cases List.mem_singleton.1 ht
    exact ⟨fun e he => by simp [hs] at he, hlt⟩
  case count_le => exact hlt

end Orderly

structure Tracks {α : Type} (line : Text) (bound : Int) (x : Unbounded α) (p : Place) (d : Nat)
    (r : Except Halt α × Place) : Prop where
  coherent : r.2.Coherent line
  depth_eq : ∀ a, r.1 = .ok a → r.2.depth = d
  runs : ∀ before, ∃ events, x ⟨p, before⟩ = some (r.1, ⟨r.2, before ++ events⟩) ∧
    Orderly bound p.seen.start r.2.seen.start events

namespace Tracks

variable {α β γ : Type} {line : Text} {bound : Int} {p q : Place} {d d' : Nat}

theorem of_error {x : Unbounded α} {h : Halt} (hp : p.Coherent line)
    (hx : ∀ before, x ⟨p, before⟩ = some (.error h, ⟨p, before⟩)) :
    Tracks line bound x p d (.error h, p) := by
  refine ⟨hp, fun _ ha => (nomatch ha), fun before => ⟨[], ?_, .nil bound _⟩⟩
  rw [List.append_nil, hx]

theorem of_pure (hp : p.Coherent line) (hd : p.depth = d) (a : α) :
    Tracks line bound (pure a) p d (.ok a, p) := by
  refine ⟨hp, fun _ _ => hd, fun before => ⟨[], ?_, .nil bound _⟩⟩
  rw [List.append_nil]
  rfl

theorem of_lift {z : Descent α} {h : Halt} (hp : p.Coherent line) (hz : z p = (.error h, p)) :
    Tracks line bound (Unbounded.lift z) p d (z p) := by
  rw [hz]
  exact of_error hp fun before => by rw [Unbounded.lift, hz]

theorem bind {x : Unbounded α} {f : α → Unbounded β} {y : Descent α} {g : α → Descent β}
    (hx : Tracks line bound x p d' (y p))
    (hf : ∀ a q, q.Coherent line → q.depth = d' → p.seen.start ≤ q.seen.start →
      Tracks line bound (f a) q d (g a q)) :
    Tracks line bound (x >>= f) p d ((y >>= g) p) := by
  obtain ⟨hcoherent, hdepth, hruns⟩ := hx
  rcases hr : y p with ⟨r, q⟩
  rw [hr] at hcoherent hdepth hruns
  cases r with
  | error h =>
      rw [Descent.bind_of_error hr]
      refine ⟨hcoherent, fun _ ha => (nomatch ha), fun before => ?_⟩
      obtain ⟨events, hrun, horderly⟩ := hruns before
      exact ⟨events, Unbounded.bind_of_error hrun, horderly⟩
  | ok a =>
      rw [Descent.bind_of_ok hr]
      obtain ⟨_, -, hfirst⟩ := hruns []
      have hle := Nat.le_trans (Nat.le_add_right ..) hfirst.count_le
      obtain ⟨hcoherent', hdepth', hruns'⟩ := hf a q hcoherent (hdepth a rfl) hle
      refine ⟨hcoherent', hdepth', fun before => ?_⟩
      obtain ⟨events, hrun, horderly⟩ := hruns before
      obtain ⟨events', hrun', horderly'⟩ := hruns' (before ++ events)
      refine ⟨events ++ events', ?_, horderly.append horderly'⟩
      rw [Unbounded.bind_of_ok hrun, hrun', List.append_assoc]

theorem lift_bind {z : Descent γ} {a : γ} {f : γ → Unbounded β} {g : γ → Descent β}
    (hz : z p = (.ok a, q)) (hq : q.seen = p.seen) (h : Tracks line bound (f a) q d (g a q)) :
    Tracks line bound (Unbounded.lift z >>= f) p d ((z >>= g) p) := by
  obtain ⟨hcoherent, hdepth, hruns⟩ := h
  rw [Descent.bind_of_ok hz]
  refine ⟨hcoherent, hdepth, fun before => ?_⟩
  obtain ⟨events, hrun, horderly⟩ := hruns before
  have hlift : Unbounded.lift z ⟨p, before⟩ = some (.ok a, ⟨q, before⟩) := by
    rw [Unbounded.lift, hz]
  exact ⟨events, by rw [Unbounded.bind_of_ok hlift, hrun], hq ▸ horderly⟩

theorem seen_bind {f : Scanned → Unbounded β} {g : Scanned → Descent β}
    (h : Tracks line bound (f p.seen) p d (g p.seen p)) :
    Tracks line bound (Unbounded.lift Descent.seen >>= f) p d ((Descent.seen >>= g) p) :=
  lift_bind (z := Descent.seen) rfl rfl h

theorem depth_bind {f : Nat → Unbounded β} {g : Nat → Descent β}
    (h : Tracks line bound (f p.depth) p d (g p.depth p)) :
    Tracks line bound (Unbounded.lift Descent.depth >>= f) p d ((Descent.depth >>= g) p) :=
  lift_bind (z := Descent.depth) rfl rfl h

theorem setDepth_bind {f : Unit → Unbounded β} {g : Unit → Descent β}
    (h : Tracks line bound (f ()) ⟨p.seen, d'⟩ d (g () ⟨p.seen, d'⟩)) :
    Tracks line bound (Unbounded.lift (Descent.setDepth d') >>= f) p d
      ((Descent.setDepth d' >>= g) p) :=
  lift_bind (z := Descent.setDepth d') rfl rfl h

theorem checked_bind {x : Except Misuse γ} {f : γ → Unbounded β} {g : γ → Descent β}
    (hp : p.Coherent line) (h : ∀ a, Tracks line bound (f a) p d (g a p)) :
    Tracks line bound (Unbounded.lift (Descent.checked x) >>= f) p d
      ((Descent.checked x >>= g) p) := by
  cases x with
  | ok a => exact lift_bind rfl rfl (h a)
  | error m => exact of_error hp fun _ => rfl

theorem record_bind {n : Nat} {x : Unbounded β} {r : Except Halt β × Place} (hn : (n : Int) ≤ bound)
    (h : Tracks line bound x p d r) :
    Tracks line bound (Unbounded.record (.entered n) >>= fun _ => x) p d r := by
  obtain ⟨hcoherent, hdepth, hruns⟩ := h
  refine ⟨hcoherent, hdepth, fun before => ?_⟩
  obtain ⟨events, hrun, horderly⟩ := hruns (before ++ [.entered n])
  have hrecord : Unbounded.record (.entered n) ⟨p, before⟩ =
      some (.ok (), ⟨p, before ++ [.entered n]⟩) := rfl
  refine ⟨.entered n :: events, ?_, (Orderly.entered hn _).append horderly⟩
  rw [Unbounded.bind_of_ok hrecord, hrun, List.append_assoc]
  rfl

theorem advance_bind {x : Symbol} {f : Unit → Unbounded β} {g : Unit → Descent β}
    (hp : p.Coherent line) (hx : p.seen.token = .symbol x)
    (h : ∀ q, q.Coherent line → q.depth = p.depth → p.seen.start < q.seen.start →
      Tracks line bound (f ()) q d (g () q)) :
    Tracks line bound (Unbounded.advance line >>= f) p d ((Descent.advance line >>= g) p) := by
  have hadvance := Descent.advance_eq line p
  have hlt := hp.start_lt_start_scan hx
  obtain ⟨hcoherent, hdepth, hruns⟩ := h ⟨scan line p.seen.stop, p.depth⟩
    (Place.coherent_scan line _ _) rfl hlt
  rw [Descent.bind_of_ok hadvance]
  refine ⟨hcoherent, hdepth, fun before => ?_⟩
  obtain ⟨events, hrun, horderly⟩ := hruns (before ++ [.advanced p.seen (scan line p.seen.stop)])
  refine ⟨.advanced p.seen (scan line p.seen.stop) :: events, ?_,
    (Orderly.advance hx hlt bound).append horderly⟩
  rw [Unbounded.bind_of_ok (Unbounded.advance_eq line p before), hrun, List.append_assoc]
  rfl

end Tracks

section Procedures

open Descent (additives multiplicatives)

variable {line : Text} {limit bound : Int} {around steps termSteps nest d : Nat}
  {inner : Descent Float} {p : Place}

def TracksInside (line : Text) (limit bound : Int) (around : Nat) (inner : Descent Float)
    (d : Nat) : Prop :=
  ∀ q : Place, q.Coherent line → q.depth = d →
    Tracks line bound ((Call.expression around).run line limit) q d (inner q)

theorem exists_unexpected (line complaint : Text) (p : Place) :
    ∃ h, (Descent.unexpected line complaint : Descent Float) p = (.error h, p) := by
  have hseen : Descent.seen p = (.ok p.seen, p) := rfl
  rw [Descent.unexpected, Descent.bind_of_ok hseen]
  cases p.seen.token.kind with
  | invalid => cases Misuse.charAt line p.seen.start <;> exact ⟨_, rfl⟩
  | number | plus | minus | times | divide | lparen | rparen | endOfLine => exact ⟨_, rfl⟩

theorem closeGroup_tracks (hp : p.Coherent line) (hd : p.depth = d + 1) (v : Float) :
    Tracks line bound (Unbounded.closeGroup line v) p d (Descent.closeGroup line v p) := by
  rw [Unbounded.closeGroup, Descent.closeGroup]
  apply Tracks.seen_bind
  by_cases hkind : p.seen.token.kind = .rparen
  · rw [if_pos hkind, if_pos hkind]
    refine .advance_bind hp (Descent.kind_eq_rparen_iff.1 hkind) fun q hq hqd _ => ?_
    apply Tracks.depth_bind
    apply Tracks.setDepth_bind
    have hclosed : q.depth - 1 = d := by omega
    exact .of_pure (p := ⟨q.seen, q.depth - 1⟩) hq hclosed v
  · rw [if_neg hkind, if_neg hkind]
    exact .of_lift hp rfl

theorem factor_tracks (hp : p.Coherent line) (hd : p.depth = d)
    (hinner : d < limit → TracksInside line limit bound around inner (d + 1)) :
    Tracks line bound ((Call.factor around).run line limit) p d
      (Descent.factor line limit inner p) := by
  rw [Call.run, Descent.factor]
  apply Tracks.seen_bind
  cases hkind : p.seen.token.kind with
  | number =>
      obtain ⟨v, htoken⟩ := Descent.kind_eq_number_iff.1 hkind
      rw [if_pos rfl]
      refine .checked_bind hp fun v => .advance_bind hp htoken fun q hq hqd _ => ?_
      exact .of_pure hq (hqd.trans hd) v
  | lparen =>
      rw [if_neg (by decide), if_pos rfl]
      apply Tracks.depth_bind
      by_cases hlimit : limit ≤ p.depth
      · simp only [if_pos hlimit]
        exact .of_lift hp rfl
      · simp only [if_neg hlimit]
        have hopened : (⟨p.seen, p.depth + 1⟩ : Place).Coherent line := hp
        refine .setDepth_bind (.advance_bind hopened (Descent.kind_eq_lparen_iff.1 hkind)
          fun q hq hqd _ => ?_)
        have hinside : q.depth = d + 1 := by rw [hqd, hd]
        exact (hinner (by omega) q hq hinside).bind fun v q' hq' hqd' _ =>
          closeGroup_tracks hq' hqd' v
  | plus | minus | times | divide | rparen | endOfLine | invalid =>
      obtain ⟨h, hh⟩ := exists_unexpected line unexpectedOperand p
      rw [if_neg (by decide), if_neg (by decide)]
      exact .of_lift hp hh

theorem products_tracks (hp : p.Coherent line) (hd : p.depth = d)
    (hinner : d < limit → TracksInside line limit bound around inner (d + 1)) (product : Float)
    (hsteps : line.length - p.seen.start < steps) :
    Tracks line bound ((Call.products around product).run line limit) p d
      (Descent.products line limit inner steps product p) := by
  -- Each round starts further back in the line, so the steps do not run out before the line does.
  induction steps generalizing p product with
  | zero => cases hsteps
  | succ steps ih =>
      rw [Call.run, Descent.products]
      apply Tracks.seen_bind
      by_cases hmem : p.seen.token.kind ∈ multiplicatives.map Prod.fst
      · obtain ⟨op, htoken⟩ := Descent.kind_mem_multiplicatives_iff.1 hmem
        rw [if_pos hmem, if_pos hmem]
        refine .advance_bind hp htoken fun q hq hqd hlt => .seen_bind ?_
        refine (factor_tracks hq (hqd.trans hd) hinner).bind fun v q' hq' hqd' hle => ?_
        by_cases hzero : p.seen.token.kind = .divide ∧ (v == 0) = true
        · rw [if_pos hzero, if_pos hzero]
          exact .of_lift hq' rfl
        · rw [if_neg hzero, if_neg hzero]
          have hlength := hq.start_le
          exact .checked_bind hq' fun apply => .checked_bind hq' fun product' =>
            ih hq' hqd' product' (by omega)
      · rw [if_neg hmem, if_neg hmem]
        exact .of_pure hp hd product

theorem term_tracks (hp : p.Coherent line) (hd : p.depth = d)
    (hinner : d < limit → TracksInside line limit bound around inner (d + 1))
    (hsteps : line.length - p.seen.start < steps) :
    Tracks line bound ((Call.term around).run line limit) p d
      (Descent.term line limit inner steps p) := by
  rw [Call.run, Descent.term]
  refine (factor_tracks hp hd hinner).bind fun v q hq hqd hle => ?_
  exact products_tracks hq hqd hinner v (by omega)

theorem sums_tracks (hp : p.Coherent line) (hd : p.depth = d)
    (hinner : d < limit → TracksInside line limit bound around inner (d + 1)) (sum : Float)
    (hsteps : line.length - p.seen.start < steps) (hterm : line.length - p.seen.start < termSteps) :
    Tracks line bound ((Call.sums around sum).run line limit) p d
      (Descent.sums line limit inner termSteps steps sum p) := by
  induction steps generalizing p sum with
  | zero => cases hsteps
  | succ steps ih =>
      rw [Call.run, Descent.sums]
      apply Tracks.seen_bind
      by_cases hmem : p.seen.token.kind ∈ additives.map Prod.fst
      · obtain ⟨op, htoken⟩ := Descent.kind_mem_additives_iff.1 hmem
        rw [if_pos hmem, if_pos hmem]
        refine .checked_bind hp fun apply => .advance_bind hp htoken fun q hq hqd hlt => ?_
        have hlength := hq.start_le
        refine (term_tracks hq (hqd.trans hd) hinner (by omega)).bind fun v q' hq' hqd' hle => ?_
        exact ih hq' hqd' (apply sum v) (by omega) (by omega)
      · rw [if_neg hmem, if_neg hmem]
        exact .of_pure hp hd sum

theorem expression_tracks (hsteps : line.length < steps) (hnest : max (limit - d) 0 < nest)
    (hbound : around + 1 + max (limit - d) 0 ≤ bound) :
    TracksInside line limit bound around (Descent.expression line limit steps nest) d := by
  -- Each level opens one group more, so that as many levels are left as the limit allows groups.
  induction nest generalizing around d with
  | zero => omega
  | succ nest ih =>
      intro p hp hd
      have hinner : d < limit → TracksInside line limit bound (around + 1)
          (Descent.expression line limit steps nest) (d + 1) := by
        intro hlimit
        exact ih (by omega) (by omega)
      rw [Call.run, Descent.expression]
      apply Tracks.record_bind (by omega)
      refine (term_tracks hp hd hinner (by omega)).bind fun v q hq hqd hle => ?_
      exact sums_tracks hq hqd hinner v (by omega) (by omega)

theorem read_tracks (hp : p.Coherent line) (hsteps : line.length < steps)
    (hnest : max (limit - p.depth) 0 < nest) (goal : Goal) :
    Tracks line (max (limit - p.depth) 0 + 1) (Unbounded.read line limit goal) p p.depth
      (Descent.read line limit nest steps goal p) := by
  have hinner : p.depth < limit → TracksInside line limit (max (limit - p.depth) 0 + 1) 0
      (Descent.expression line limit steps nest) (p.depth + 1) := by
    intro hlimit
    exact expression_tracks hsteps (by omega) (by omega)
  cases goal with
  | expression => exact expression_tracks hsteps hnest (by omega) p hp rfl
  | term => exact term_tracks hp rfl hinner (by omega)
  | factor => exact factor_tracks hp rfl hinner

theorem evaluate_begun (line : Text) (limit : Int) (p : Place) (before : List Event) :
    Unbounded.evaluate line limit ⟨p, before⟩ =
      ((Call.expression 0).run line limit >>= fun v => Unbounded.lift Descent.seen >>= fun s =>
        if s.token.kind = .endOfLine then pure v
        else Unbounded.lift (Descent.unexpected line Lexed.unexpectedRest))
        ⟨⟨scan line 0, 0⟩, before ++ [.advanced { p.seen with stop := 0 } (scan line 0)]⟩ := by
  have hadvance := Unbounded.advance_eq line ⟨{ p.seen with stop := 0 }, 0⟩ before
  exact Unbounded.bind_of_ok hadvance

theorem evaluate_tracks (hsteps : line.length < steps) (hnest : max limit 0 < nest) (p : Place) :
    Tracks line (max limit 0 + 1)
      ((Call.expression 0).run line limit >>= fun v => Unbounded.lift Descent.seen >>= fun s =>
        if s.token.kind = .endOfLine then pure v
        else Unbounded.lift (Descent.unexpected line Lexed.unexpectedRest))
      ⟨scan line 0, 0⟩ 0 (Descent.evaluate line limit nest steps p) := by
  have hbegun : Descent.evaluate line limit nest steps p =
      (Descent.expression line limit steps nest >>= fun v => Descent.seen >>= fun s =>
        if s.token.kind = .endOfLine then pure v
        else Descent.unexpected line Lexed.unexpectedRest) ⟨scan line 0, 0⟩ :=
    Descent.bind_of_ok (Descent.advance_eq line ⟨{ p.seen with stop := 0 }, 0⟩)
  have hexpression : TracksInside line limit (max limit 0 + 1) 0
      (Descent.expression line limit steps nest) 0 := expression_tracks hsteps (by omega) (by omega)
  have hfirst := hexpression ⟨scan line 0, 0⟩ (Place.coherent_scan line 0 0) rfl
  rw [hbegun]
  refine hfirst.bind fun v q hq hqd _ => .seen_bind ?_
  by_cases hend : q.seen.token.kind = .endOfLine
  · rw [if_pos hend, if_pos hend]
    exact .of_pure hq hqd v
  · rw [if_neg hend, if_neg hend]
    obtain ⟨h, hh⟩ := exists_unexpected line Lexed.unexpectedRest q
    exact .of_lift hq hh

end Procedures

theorem read_ends (limit : Int) (goal : Goal) {line : Text} {p : Place} (hp : p.Coherent line) :
    ∃ result q events,
      Unbounded.read line limit goal ⟨p, []⟩ = some (result.mapError .failure, ⟨q, events⟩) ∧
      Orderly (max (limit - p.depth) 0 + 1) p.seen.start q.seen.start events ∧
      (∀ nest steps : Nat, max (limit - p.depth) 0 + 1 ≤ nest → line.length < steps →
        Descent.read line limit nest steps goal p = (result.mapError .failure, q)) ∧
      let r := (Reading.standing line limit p.seen p.depth).perform (.read goal)
      r.1 = .ofResult result ∧ r.2.seen? = some q.seen ∧ r.2.depth = q.depth := by
  let l := Lexed.fromOffset line p.seen.start
  let o := l.read ⟨goal, limit, p.depth⟩ l.lexemes
  have hread (nest steps : Nat) (hnest : max (limit - p.depth) 0 + 1 ≤ nest)
      (hsteps : line.length < steps) : Descent.read line limit nest steps goal p =
        (o.result.mapError .failure, l.place o.rest o.depth) :=
    hp.read_eq (by omega) hsteps goal
  have hnest : max (limit - p.depth) 0 < ((max (limit - p.depth) 0).toNat + 1 : Nat) := by omega
  have htracks := read_tracks hp (Nat.lt_succ_self line.length) hnest goal
  rw [hread _ _ (by omega) (Nat.lt_succ_self line.length)] at htracks
  obtain ⟨events, hrun, horderly⟩ := htracks.runs []
  exact ⟨o.result, l.place o.rest o.depth, events, hrun, horderly, hread, rfl, rfl, rfl⟩

theorem evaluate_ends (line : Text) (limit : Int) (p : Place) :
    ∃ result q events,
      Unbounded.evaluate line limit ⟨p, []⟩ = some (result.mapError .failure,
        ⟨q, .advanced { p.seen with stop := 0 } (scan line 0) :: events⟩) ∧
      Orderly (max limit 0 + 1) (scan line 0).start q.seen.start events ∧
      1 + events.countP Event.isAdvance ≤ line.length + 1 ∧
      (∀ nest steps : Nat, max limit 0 + 1 ≤ nest → line.length < steps →
        Descent.evaluate line limit nest steps p = (result.mapError .failure, q)) ∧
      let r := (Reading.ofLine line limit).perform .evaluate
      r.1 = .ofResult result ∧ r.2.seen? = some q.seen ∧ r.2.depth = q.depth := by
  let l := Lexed.ofLine line
  let o := l.evaluate limit
  have hread (nest steps : Nat) (hnest : max limit 0 + 1 ≤ nest) (hsteps : line.length < steps) :
      Descent.evaluate line limit nest steps p =
        (o.result.mapError .failure, l.place o.rest o.depth) :=
    Descent.evaluate_eq rfl (by omega) hsteps p
  have hnest : max limit 0 < ((max limit 0).toNat + 1 : Nat) := by omega
  have htracks := evaluate_tracks (Nat.lt_succ_self line.length) hnest p
  rw [hread _ _ (by omega) (Nat.lt_succ_self line.length)] at htracks
  obtain ⟨events, hrun, horderly⟩ :=
    htracks.runs [.advanced { p.seen with stop := 0 } (scan line 0)]
  have hcount : 1 + events.countP Event.isAdvance ≤ line.length + 1 := by
    have hle := horderly.count_le
    have hstop := htracks.coherent.start_le
    omega
  refine ⟨o.result, l.place o.rest o.depth, events, ?_, horderly, hcount, hread, rfl, rfl, rfl⟩
  rw [evaluate_begun, List.nil_append, hrun]
  rfl

theorem unbounded_descent_ends (line : Text) (limit : Int) :
    (∀ (goal : Goal) (p : Place), p.Coherent line →
      ∃ result q events,
        Unbounded.read line limit goal ⟨p, []⟩ = some (result.mapError .failure, ⟨q, events⟩) ∧
        Orderly (max (limit - p.depth) 0 + 1) p.seen.start q.seen.start events ∧
        (∀ nest steps : Nat, max (limit - p.depth) 0 + 1 ≤ nest → line.length < steps →
          Descent.read line limit nest steps goal p = (result.mapError .failure, q)) ∧
        let r := (Reading.standing line limit p.seen p.depth).perform (.read goal)
        r.1 = .ofResult result ∧ r.2.seen? = some q.seen ∧ r.2.depth = q.depth) ∧
    ∀ p : Place, ∃ result q events,
      Unbounded.evaluate line limit ⟨p, []⟩ = some (result.mapError .failure,
        ⟨q, .advanced { p.seen with stop := 0 } (scan line 0) :: events⟩) ∧
      Orderly (max limit 0 + 1) (scan line 0).start q.seen.start events ∧
      1 + events.countP Event.isAdvance ≤ line.length + 1 ∧
      (∀ nest steps : Nat, max limit 0 + 1 ≤ nest → line.length < steps →
        Descent.evaluate line limit nest steps p = (result.mapError .failure, q)) ∧
      let r := (Reading.ofLine line limit).perform .evaluate
      r.1 = .ofResult result ∧ r.2.seen? = some q.seen ∧ r.2.depth = q.depth :=
  ⟨fun goal _ hp => read_ends limit goal hp, evaluate_ends line limit⟩

theorem unbounded_descent_ends_inside_groups :
    let line := "((1)-((2".toList
    let p : Place := ⟨⟨.symbol .lparen, 5, 6⟩, 1⟩
    p.Coherent line ∧ ∃ q events,
      Unbounded.read line 2 .term ⟨p, []⟩ =
        some (.error (.failure ⟨.nestingTooDeep, 6⟩), ⟨q, events⟩) ∧
      Orderly 2 5 q.seen.start events := by
  intro line p
  have hp : p.Coherent line := by
    rw [Place.Coherent]
    decide +kernel
  have hfails : ((Reading.standing line 2 p.seen p.depth).perform (.read .term)).1 =
      .failure ⟨.nestingTooDeep, 6⟩ := by decide +kernel
  obtain ⟨result, q, events, hrun, horderly, -, hreply, -⟩ :=
    (unbounded_descent_ends line 2).1 .term p hp
  have hresult : result = .error ⟨.nestingTooDeep, 6⟩ := by
    rw [hfails] at hreply
    cases result with
    | ok v => cases hreply
    | error f =>
        cases hreply
        rfl
  rw [hresult] at hrun
  exact ⟨hp, q, events, hrun, horderly⟩

end LineCalculator
