import MatchingEngine.Core.AllOrNothing
import MatchingEngine.Core.MarkedCalls

/-!
# An emptied book

Much stays behind when the last order of a book leaves: the free list, in the order in which
the cells came back, the bump pointer, the table of the index, the levels and where they begin.
No later call can tell, since all that a call goes by is the marked book, the size of the arena
and the window (`Bears.call`), with one exception: the price axis. It stays where the first
order has put it, and refuses a price that is more than `kMaxLevels` away, which a new book
would accept (`emptied_refuses`).

Up to such a refusal, in one of the two books only, an emptied book answers as a new one does
(`Reached.emptied`).
-/

namespace MatchingEngine

open Foundation OrderBookV2

/-- The price axis has refused the price of the call. -/
def CallResult.offAxis (r : CallResult) : Bool := r.thrown.any Exn.offAxis

/-- **Two books answer alike**: each call answers the same on both, as long as the price axis refuses it on both or on
neither; and if it does on neither, it also throws the same exception, or none. -/
def AnswersAlike (s t : OrderBookV2) : List Call → Prop
  | [] => True
  | op :: ops => ∀ r r', s.call op = .ok r → t.call op = .ok r' →
    r.answer = r'.answer ∧ (r.offAxis = r'.offAxis →
      (r.offAxis = false → r.thrown = r'.thrown) ∧ AnswersAlike r.book r'.book ops)

variable {s t : OrderBookV2} {b : MarkedBook} {cap : ℕ} {capacity : UInt32} {window : ℤ}

/-! ### Refusals -/

/-- The answer of a call does not depend on what the price axis does. -/
theorem MarkedBook.call_answer (b : MarkedBook) (cap : ℕ) (window : ℤ) (refused refused' : Option Exn) (op : Call) :
    (b.call cap window refused op).1 = (b.call cap window refused' op).1 := by
  cases op with
  | add req =>
    simp only [MarkedBook.call, MarkedBook.add]
    cases req.type with
    | limit =>
      dsimp only
      split_ifs <;> rfl
    | postOnly =>
      dsimp only
      split_ifs <;> rfl
    | market => rfl
    | cancel => rfl
    | ioc => rfl
    | fok => rfl
  | cancel id => rfl
  | reduce id delta => rfl

/-- Neither does the book after a refusal depend on the text of the exception. -/
theorem MarkedBook.call_refused (b : MarkedBook) (cap : ℕ) (window : ℤ) (e e' : Exn) (op : Call) :
    (b.call cap window (some e) op).2.2 = (b.call cap window (some e') op).2.2 := by
  have hrest : ∀ (b : MarkedBook) (req : OrderRequest) (qty : ℕ),
      (b.rest cap window (some e) req qty).2 = (b.rest cap window (some e') req qty).2 := by
    intro b req qty
    by_cases hw : WindowFits window
    · rw [rest_refused hw, rest_refused hw]
    · rw [rest_unopened hw, rest_unopened hw]
  cases op with
  | add req =>
    simp only [MarkedBook.call, MarkedBook.add]
    cases req.type with
    | limit =>
      dsimp only
      split_ifs
      · exact hrest (b.taken req) req (b.book.take req).left
      · rfl
    | postOnly =>
      dsimp only
      split_ifs
      · rfl
      · exact hrest b req req.qty.toNat
    | market => rfl
    | cancel => rfl
    | ioc => rfl
    | fok => rfl
  | cancel id => rfl
  | reduce id delta => rfl

theorem refusal_eq_none {r : CallResult} (h : r.offAxis = false) : refusal r.thrown = none := by
  rw [CallResult.offAxis] at h
  cases hthrown : r.thrown with
  | none => rfl
  | some e =>
    rw [hthrown] at h
    have hoff : e.offAxis = false := h
    simp [refusal, hoff]

theorem refusal_eq_some {r : CallResult} (h : r.offAxis = true) : ∃ e, refusal r.thrown = some e := by
  rw [CallResult.offAxis] at h
  obtain ⟨e, he, hoff⟩ := (Option.any_eq_true _ _).mp h
  exact ⟨e, by simp [refusal, he, hoff]⟩

/-! ### Two runs -/

/-- **Two states with one marked book** answer alike. -/
theorem Bears.answersAlike {ops : List Call} (hs : Bears s b cap window) (ht : Bears t b cap window)
    (hops : ∀ op ∈ ops, op.InRange) : AnswersAlike s t ops := by
  induction ops generalizing s t b with
  | nil => trivial
  | cons op ops ih =>
    intro r r' hr hr'
    obtain ⟨h1, h2⟩ := hs.call (hops op List.mem_cons_self) hr
    obtain ⟨h1', h2'⟩ := ht.call (hops op List.mem_cons_self) hr'
    rw [Prod.mk.injEq] at h1 h1'
    have hrest : ∀ op ∈ ops, op.InRange := fun op hop => hops op (List.mem_cons_of_mem _ hop)
    refine ⟨by rw [h1.1, h1'.1, b.call_answer], fun hoff => ?_⟩
    cases h : r.offAxis with
    | false =>
      -- neither is refused
      have hn := refusal_eq_none h
      have hn' := refusal_eq_none (hoff ▸ h)
      rw [hn] at h1 h2
      rw [hn'] at h1' h2'
      exact ⟨fun _ => h1.2.trans h1'.2.symm, ih h2 h2' hrest⟩
    | true =>
      -- both are
      obtain ⟨e, he⟩ := refusal_eq_some h
      obtain ⟨e', he'⟩ := refusal_eq_some (hoff ▸ h)
      rw [he] at h2
      rw [he', b.call_refused cap window e' e] at h2'
      exact ⟨fun hf => absurd hf (by decide), ih h2 h2' hrest⟩

/-- **An emptied book answers as a new one does**, as long as the price axis of one of them alone does not refuse a
price. -/
theorem Reached.emptied (h : Reached capacity window s) (he : s.book.orders = []) {ops : List Call}
    (hops : ∀ op ∈ ops, op.InRange) : AnswersAlike s (OrderBookV2.new capacity window) ops := by
  obtain ⟨b, hb⟩ := h.bears
  have hsize : b.size = 0 := by
    rw [← hb.marked, OrderBookV2.marked, size_markedOf]
    exact congrArg List.length he
  have hempty : b = fun _ => [] := by
    rw [MarkedBook.size] at hsize
    funext side
    cases side with
    | buy => exact List.length_eq_zero_iff.mp (by omega)
    | sell => exact List.length_eq_zero_iff.mp (by omega)
  rw [hempty] at hb
  exact hb.answersAlike (bears_new capacity window) hops

/-- A book that has sold out at `100`, and a later order at `90`. -/
theorem emptied_sold_out :
    ∃ s, Reached 4 8 s ∧ s.book.orders = [] ∧
      AnswersAlike s (OrderBookV2.new 4 8) [.add ⟨3, .sell, .limit, 90, 2⟩, .cancel 1] := by
  have hrun : ((OrderBookV2.new 4 8).after [.add ⟨1, .sell, .limit, 100, 5⟩, .add ⟨2, .buy, .market, 0, 5⟩]).any
      (fun s => decide (s.book.orders = [])) = true := by decide
  obtain ⟨s, hs, he⟩ := (Option.any_eq_true _ _).mp hrun
  have h := (Reachable.new.after hs).reached
  have he := of_decide_eq_true he
  exact ⟨s, h, he, h.emptied he (by decide)⟩

/-- **A price seen once keeps others out**: after an order at `888888800` has been cancelled, the book refuses one at
`100`, which a new book accepts. -/
theorem emptied_refuses :
    ∃ s r r', Reached 4 8 s ∧ s.book.orders = [] ∧ s.call (.add ⟨2, .buy, .limit, 100, 5⟩) = .ok r ∧
      (OrderBookV2.new 4 8).call (.add ⟨2, .buy, .limit, 100, 5⟩) = .ok r' ∧ r.thrown ≠ none ∧ r'.thrown = none := by
  have hrun : ((OrderBookV2.new 4 8).after [.add ⟨1, .sell, .limit, 888888800, 5⟩, .cancel 1]).any
      (fun s => decide (s.book.orders = []) &&
        (s.call (.add ⟨2, .buy, .limit, 100, 5⟩)).toOption.any fun r => r.thrown.isSome) = true := by decide
  have hnew : ((OrderBookV2.new 4 8).call (.add ⟨2, .buy, .limit, 100, 5⟩)).toOption.any
      (fun r => r.thrown.isNone) = true := by decide
  obtain ⟨s, hs, hnext⟩ := (Option.any_eq_true _ _).mp hrun
  obtain ⟨he, hnext⟩ := Bool.and_eq_true_iff.mp hnext
  have h := (Reachable.new.after hs).reached
  obtain ⟨r, hr, hthrown⟩ := (Option.any_eq_true _ _).mp hnext
  obtain ⟨r', hr', hthrown'⟩ := (Option.any_eq_true _ _).mp hnew
  refine ⟨s, r, r', h, of_decide_eq_true he, ?_, ?_, Option.isSome_iff_ne_none.mp hthrown, Option.isNone_iff_eq_none.mp hthrown'⟩
  · cases hcall : s.call (.add ⟨2, .buy, .limit, 100, 5⟩) with
    | error u =>
      rw [hcall] at hr
      cases hr
    | ok r₁ =>
      rw [hcall] at hr
      cases hr
      rfl
  · cases hcall : (OrderBookV2.new 4 8).call (.add ⟨2, .buy, .limit, 100, 5⟩) with
    | error u =>
      rw [hcall] at hr'
      cases hr'
    | ok r₁ =>
      rw [hcall] at hr'
      cases hr'
      rfl

end MatchingEngine
