import LineCalculator.Evaluation.Step
import LineCalculator.Proofs.Nesting

namespace LineCalculator

inductive Phrase : Goal → Type where
  | number (v : Float) : Phrase .factor
  | group (e : Phrase .expression) : Phrase .factor
  | single (f : Phrase .factor) : Phrase .term
  | multiplied (t : Phrase .term) (op : MulOp) (f : Phrase .factor) : Phrase .term
  | lone (t : Phrase .term) : Phrase .expression
  | added (e : Phrase .expression) (op : AddOp) (t : Phrase .term) : Phrase .expression

namespace Phrase

def symbols : {g : Goal} → Phrase g → List Symbol
  | _, .number v => [.number v]
  | _, .group e => .lparen :: (e.symbols ++ [.rparen])
  | _, .single f => f.symbols
  | _, .multiplied t op f => t.symbols ++ .multiplicative op :: f.symbols
  | _, .lone t => t.symbols
  | _, .added e op t => e.symbols ++ .additive op :: t.symbols

def value? : {g : Goal} → Phrase g → Option Float
  | _, .number v => some v
  | _, .group e => e.value?
  | _, .single f => f.value?
  | _, .multiplied t op f => t.value?.bind fun x => f.value?.bind fun y => op.combine? x y
  | _, .lone t => t.value?
  | _, .added e op t => e.value?.bind fun x => t.value?.map fun y => op.combine x y

def sum (t : Phrase .term) (more : List (AddOp × Phrase .term)) : Phrase .expression :=
  more.foldl (fun e x => .added e x.1 x.2) (.lone t)

def product (f : Phrase .factor) (more : List (MulOp × Phrase .factor)) : Phrase .term :=
  more.foldl (fun t x => .multiplied t x.1 x.2) (.single f)

theorem exists_eq_sum (e : Phrase .expression) : ∃ t more, e = sum t more := by
  match e with
  | .lone t => exact ⟨t, [], rfl⟩
  | .added e op t =>
      obtain ⟨first, more, he⟩ := exists_eq_sum e
      exact ⟨first, more ++ [(op, t)], by simp [sum, he]⟩

theorem exists_eq_product (t : Phrase .term) : ∃ f more, t = product f more := by
  match t with
  | .single f => exact ⟨f, [], rfl⟩
  | .multiplied t op f =>
      obtain ⟨first, more, ht⟩ := exists_eq_product t
      exact ⟨first, more ++ [(op, f)], by simp [product, ht]⟩

theorem symbols_sum (t : Phrase .term) (more : List (AddOp × Phrase .term)) :
    (sum t more).symbols = t.symbols ++ more.flatMap fun x => .additive x.1 :: x.2.symbols := by
  suffices h : ∀ e : Phrase .expression,
      (more.foldl (fun e x => Phrase.added e x.1 x.2) e).symbols =
        e.symbols ++ more.flatMap fun x => .additive x.1 :: x.2.symbols from h (.lone t)
  induction more with
  | nil => simp
  | cons x more ih =>
      intro e
      rw [List.foldl_cons, ih]
      simp [symbols]

theorem symbols_product (f : Phrase .factor) (more : List (MulOp × Phrase .factor)) :
    (product f more).symbols =
      f.symbols ++ more.flatMap fun x => .multiplicative x.1 :: x.2.symbols := by
  suffices h : ∀ t : Phrase .term,
      (more.foldl (fun t x => Phrase.multiplied t x.1 x.2) t).symbols =
        t.symbols ++ more.flatMap fun x => .multiplicative x.1 :: x.2.symbols from h (.single f)
  induction more with
  | nil => simp
  | cons x more ih =>
      intro t
      rw [List.foldl_cons, ih]
      simp [symbols]

theorem exists_factor_iff {ts : List Symbol} :
    (∃ f : Phrase .factor, f.symbols = ts) ↔
      (∃ v, ts = [.number v]) ∨
        ∃ e : Phrase .expression, ts = .lparen :: (e.symbols ++ [.rparen]) := by
  constructor
  · rintro ⟨f, rfl⟩
    cases f with
    | number v => exact Or.inl ⟨v, rfl⟩
    | group e => exact Or.inr ⟨e, rfl⟩
  · rintro (⟨v, rfl⟩ | ⟨e, rfl⟩)
    · exact ⟨.number v, rfl⟩
    · exact ⟨.group e, rfl⟩

theorem exists_term_iff {ts : List Symbol} :
    (∃ t : Phrase .term, t.symbols = ts) ↔
      ∃ (f : Phrase .factor) (more : List (MulOp × Phrase .factor)),
        ts = f.symbols ++ more.flatMap fun x => .multiplicative x.1 :: x.2.symbols := by
  constructor
  · rintro ⟨t, rfl⟩
    obtain ⟨f, more, rfl⟩ := exists_eq_product t
    exact ⟨f, more, symbols_product f more⟩
  · rintro ⟨f, more, rfl⟩
    exact ⟨product f more, symbols_product f more⟩

theorem exists_expression_iff {ts : List Symbol} :
    (∃ e : Phrase .expression, e.symbols = ts) ↔
      ∃ (t : Phrase .term) (more : List (AddOp × Phrase .term)),
        ts = t.symbols ++ more.flatMap fun x => .additive x.1 :: x.2.symbols := by
  constructor
  · rintro ⟨e, rfl⟩
    obtain ⟨t, more, rfl⟩ := exists_eq_sum e
    exact ⟨t, more, symbols_sum t more⟩
  · rintro ⟨t, more, rfl⟩
    exact ⟨sum t more, symbols_sum t more⟩

@[simp] theorem openCount_symbols {g : Goal} (p : Phrase g) : openCount p.symbols = 0 := by
  induction p with
  | number v => rfl
  | group e ih => simp [symbols, ih, Symbol.weight]
  | single f ih => exact ih
  | multiplied t op f iht ihf => simp [symbols, iht, ihf, Symbol.weight]
  | lone t ih => exact ih
  | added e op t ihe iht => simp [symbols, ihe, iht, Symbol.weight]

/-- Nothing in front makes a phrase the last part of a longer one of its kind. -/
def Detached (g : Goal) (front : List Symbol) : Prop :=
  match g with
  | .factor => True
  | .term => ∀ us op, front ≠ us ++ [.multiplicative op]
  | .expression => (∀ us op, front ≠ us ++ [.multiplicative op]) ∧
      ∀ us op, front ≠ us ++ [.additive op]

theorem detached_snoc_lparen (g : Goal) (front : List Symbol) :
    Detached g (front ++ [.lparen]) := by
  cases g <;> simp [Detached]

theorem detached_term_snoc_additive (front : List Symbol) (op : AddOp) :
    Detached .term (front ++ [.additive op]) := by
  simp [Detached]

theorem append_symbols_group (front : List Symbol) (e : Phrase .expression) :
    front ++ (group e).symbols = (front ++ [.lparen] ++ e.symbols) ++ [.rparen] := by
  simp [symbols]

theorem append_symbols_multiplied (front : List Symbol) (t : Phrase .term) (op : MulOp)
    (f : Phrase .factor) : front ++ (multiplied t op f).symbols =
      (front ++ t.symbols ++ [.multiplicative op]) ++ f.symbols := by
  simp [symbols]

theorem append_symbols_added (front : List Symbol) (e : Phrase .expression) (op : AddOp)
    (t : Phrase .term) : front ++ (added e op t).symbols =
      (front ++ e.symbols ++ [.additive op]) ++ t.symbols := by
  simp [symbols]

theorem symbols_number_ne_group (v : Float) (e : Phrase .expression) (front front' : List Symbol) :
    front ++ (number v).symbols ≠ front' ++ (group e).symbols := by
  intro h
  rw [append_symbols_group] at h
  have hlast := (List.append_inj' h rfl).2
  simp [symbols] at hlast

theorem unique_of_detached {g : Goal} (p q : Phrase g) {front front' : List Symbol}
    (hf : Detached g front) (hf' : Detached g front')
    (h : front ++ p.symbols = front' ++ q.symbols) : p = q ∧ front = front' := by
  -- Both rows are read from the right: the last parts agree, and what is in front of them does.
  induction p generalizing front front' with
  | number v =>
      cases q with
      | number w =>
          obtain ⟨hfront, hs⟩ := List.append_inj' h rfl
          simp only [symbols, List.cons.injEq, Symbol.number.injEq, and_true] at hs
          exact ⟨by rw [hs], hfront⟩
      | group e =>
          exact absurd h (symbols_number_ne_group v e front front')
  | group e ih =>
      cases q with
      | number w =>
          exact absurd h.symm (symbols_number_ne_group w e front' front)
      | group e' =>
          rw [append_symbols_group, append_symbols_group] at h
          have hs := (List.append_inj' h rfl).1
          obtain ⟨rfl, hfront⟩ :=
            ih e' (detached_snoc_lparen _ front) (detached_snoc_lparen _ front') hs
          exact ⟨rfl, (List.append_inj' hfront rfl).1⟩
  | single f ih =>
      cases q with
      | single f' =>
          obtain ⟨rfl, hfront⟩ := ih f' trivial trivial h
          exact ⟨rfl, hfront⟩
      | multiplied t' op f' =>
          rw [append_symbols_multiplied] at h
          exact absurd (ih f' trivial trivial h).2 (hf _ op)
  | multiplied t op f iht ihf =>
      rw [append_symbols_multiplied] at h
      cases q with
      | single f' => exact absurd (ihf f' trivial trivial h).2.symm (hf' _ op)
      | multiplied t' op' f' =>
          rw [append_symbols_multiplied] at h
          obtain ⟨rfl, hfront⟩ := ihf f' trivial trivial h
          obtain ⟨ht, hop⟩ := List.append_inj' hfront rfl
          simp only [List.cons.injEq, Symbol.multiplicative.injEq, and_true] at hop
          obtain ⟨rfl, hrest⟩ := iht t' hf hf' ht
          exact ⟨by rw [hop], hrest⟩
  | lone t ih =>
      cases q with
      | lone t' =>
          obtain ⟨rfl, hfront⟩ := ih t' hf.1 hf'.1 h
          exact ⟨rfl, hfront⟩
      | added e' op t' =>
          rw [append_symbols_added] at h
          exact absurd (ih t' hf.1 (detached_term_snoc_additive _ op) h).2 (hf.2 _ op)
  | added e op t ihe iht =>
      rw [append_symbols_added] at h
      cases q with
      | lone t' =>
          exact absurd (iht t' (detached_term_snoc_additive _ op) hf'.1 h).2.symm (hf'.2 _ op)
      | added e' op' t' =>
          rw [append_symbols_added] at h
          obtain ⟨rfl, hfront⟩ := iht t' (detached_term_snoc_additive _ op)
            (detached_term_snoc_additive _ op') h
          obtain ⟨he, hop⟩ := List.append_inj' hfront rfl
          simp only [List.cons.injEq, Symbol.additive.injEq, and_true] at hop
          obtain ⟨rfl, hrest⟩ := ihe e' hf hf' he
          exact ⟨by rw [hop], hrest⟩

theorem detached_nil (g : Goal) : Detached g [] := by
  cases g <;> simp [Detached]

theorem symbols_injective {g : Goal} {p q : Phrase g} (h : p.symbols = q.symbols) : p = q :=
  (unique_of_detached p q (detached_nil g) (detached_nil g) (by simpa using h)).1

theorem factor_unique {f f' : Phrase .factor} {front front' : List Symbol}
    (h : front ++ f.symbols = front' ++ f'.symbols) : f = f' ∧ front = front' :=
  unique_of_detached f f' trivial trivial h

end Phrase

end LineCalculator
