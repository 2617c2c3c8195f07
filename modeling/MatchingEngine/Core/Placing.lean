import MatchingEngine.Core.AllOrNothing
import MatchingEngine.Core.MarkedCalls

/-!
# Where a new order finds a place

An attempt to rest an order ends in one of four ways: there can be no level array, the axis
refuses the price, every cell of the arena holds an order, or the order comes to rest.
`HasPlace` says beforehand that it is the last one (`Settled.rest_returns_iff`).
-/

namespace MatchingEngine

open Foundation OrderBookV2

variable {s s' : OrderBookV2} {c : Layout} {req : OrderRequest} {p : ℤ}

/-! ### The price axis -/

/-- The level array can be made to reach a price, or there is none yet. -/
def OrderBookV2.Placeable (s : OrderBookV2) (p : ℤ) : Prop := s.haveBase = true → s.Reaches p

instance (s : OrderBookV2) (p : ℤ) : Decidable (s.Placeable p) := inferInstanceAs (Decidable (_ → _))

theorem Frame.placeable (hf : Frame s s') : s'.Placeable p ↔ s.Placeable p := by
  rw [OrderBookV2.Placeable, OrderBookV2.Placeable, hf.haveBase, hf.reaches]

/-- **The price axis refuses a price** if and only if it cannot reach it, and a window of no size apart by one of
its two exceptions. -/
theorem Settled.ensureIndexForPrice_refuses_iff (h : Settled s c) {idx : Except Exn ℤ}
    (hr : s.ensureIndexForPrice p = .ok (idx, s')) :
    (∃ e, idx = .error e ∧ e.offAxis = true) ↔ ¬ s.Placeable p := by
  obtain ⟨-, hcase⟩ := h.ensureIndexForPrice_cases hr
  by_cases hopen : s.haveBase = true
  · have hiff := ensureIndexForPrice_error_iff hopen hr
    have hplace : s.Placeable p ↔ s.Reaches p := ⟨fun hpl => hpl hopen, fun hpl _ => hpl⟩
    rw [hplace, ← hiff]
    constructor
    · rintro ⟨e, he, -⟩
      exact ⟨e, he⟩
    · rintro ⟨e, he⟩
      have hw := h.opened hopen
      rcases hcase with ⟨hneg, -⟩ | ⟨-, ⟨e', he', hoff⟩ | ⟨k, hk⟩⟩
      · exact absurd hw hneg
      · exact ⟨e', he', hoff⟩
      · rw [hk] at he
        cases he
  · refine iff_of_false ?_ (fun hpl => hpl fun hf => absurd hf hopen)
    rintro ⟨e, rfl, hoff⟩
    rcases placing_of_ensureIndexForPrice hr with ⟨-, -, he, -⟩ | ⟨s₁, hopening, hplace⟩
    · cases he
      exact absurd hoff (by decide)
    cases hopening with
    | opened ho => exact hopen ho
    | fresh _ hw =>
      -- the price is in the middle of the new window
      have hpos := hw.1
      have hquarter := Int.tdiv_eq_ediv_of_nonneg (b := 4) hpos
      have hhalf := Int.tdiv_eq_ediv_of_nonneg (b := 2) hpos
      cases hplace with
      | belowMax hneg =>
        simp only at hneg
        omega
      | aboveMax hlen hmax =>
        simp only [List.length_replicate] at hlen
        simp only [backSize, kMaxLevels] at hmax
        omega

/-! ### Coming to rest -/

/-- `push_back_order` ends in one way or the other, and leaves the axis alone. -/
theorem Settled.pushBackOrder_cases (h : Settled s c) {idx : ℤ} (hl : Leveled s p idx) (side : Side) (req : OrderRequest) :
    ∃ thrown s', s.pushBackOrder idx side req = .ok (thrown, s') ∧ (thrown = none ∨ thrown = some arenaExhausted) ∧
      s'.base = s.base ∧ s'.haveBase = s.haveBase := by
  obtain ⟨i, rfl⟩ := Int.eq_ofNat_of_zero_le hl.nonneg
  have hi : i < s.levels.length := by
    have := hl.lt
    omega
  rcases h.toRepresents.pushBackOrder hi side req with ⟨x, fl, bump, hlink, -⟩ | ⟨hpush, -⟩
  · exact ⟨_, _, hlink, Or.inl rfl, rfl, rfl⟩
  · exact ⟨_, _, hpush, Or.inr rfl, rfl, rfl⟩

theorem noteBest_axis (s : OrderBookV2) (side : Side) (idx : ℤ) :
    (s.noteBest side idx).base = s.base ∧ (s.noteBest side idx).haveBase = s.haveBase := by
  cases side with
  | buy =>
    rw [noteBest]
    split_ifs
    · exact ⟨rfl, rfl⟩
    · exact ⟨rfl, rfl⟩
  | sell =>
    rw [noteBest]
    split_ifs
    · exact ⟨rfl, rfl⟩
    · exact ⟨rfl, rfl⟩

/-- **How an attempt to rest ends**: the axis refuses the price, or the arena decides, which leaves the axis alone. -/
theorem Settled.rest_cases (h : Settled s c) {thrown : Option Exn} (hr : s.rest req = .ok (thrown, s')) :
    ∃ idx s₁, s.ensureIndexForPrice req.price = .ok (idx, s₁) ∧
      ((∃ e, idx = .error e ∧ thrown = some e ∧ s' = s₁) ∨
        ∃ k, idx = .ok k ∧ (thrown = none ∨ thrown = some arenaExhausted) ∧
          s'.base = s₁.base ∧ s'.haveBase = s₁.haveBase) := by
  rw [OrderBookV2.rest] at hr
  obtain ⟨⟨idx, s₁⟩, hidx, hr⟩ := bind_eq_ok.mp hr
  refine ⟨idx, s₁, hidx, ?_⟩
  cases idx with
  | error e =>
    cases hr
    exact Or.inl ⟨e, rfl, rfl, rfl⟩
  | ok k =>
    obtain ⟨c₁, hre, hok, -⟩ := (h.ensureIndexForPrice req.price).elim hidx
    obtain ⟨thrown', s₂, hpush, hend, hbase, hhave⟩ := hre.settled.pushBackOrder_cases (hok k rfl) req.side req
    dsimp only at hr
    rw [hpush, ok_bind] at hr
    refine Or.inr ⟨k, rfl, ?_⟩
    cases thrown' with
    | some e =>
      cases hr
      exact ⟨hend, hbase, hhave⟩
    | none =>
      cases hr
      obtain ⟨hbase', hhave'⟩ := noteBest_axis s₂ req.side k
      exact ⟨Or.inl rfl, hbase'.trans hbase, hhave'.trans hhave⟩

/-- The price axis refuses a resting order if and only if it cannot reach its price. -/
theorem Settled.rest_refuses_iff (h : Settled s c) {thrown : Option Exn} (hr : s.rest req = .ok (thrown, s')) :
    (∃ e, thrown = some e ∧ e.offAxis = true) ↔ ¬ s.Placeable req.price := by
  obtain ⟨idx, s₁, hidx, hcase⟩ := h.rest_cases hr
  rw [← h.ensureIndexForPrice_refuses_iff hidx]
  rcases hcase with ⟨e, rfl, rfl, -⟩ | ⟨k, rfl, hend, -⟩
  · simp
  · refine iff_of_false ?_ (by simp)
    rintro ⟨e, rfl, hoff⟩
    -- a full arena is no refusal of the axis
    rcases hend with hend | hend
    · cases hend
    · rw [Option.some.inj hend, offAxis_arenaExhausted] at hoff
      cases hoff

/-- Where there can be a price axis, only the axis and the arena throw. -/
theorem Settled.rest_throws (h : Settled s c) (hw : WindowFits s.initialWindow) {thrown : Option Exn}
    (hr : s.rest req = .ok (thrown, s')) {e : Exn} (he : thrown = some e) : e.offAxis = true ∨ e = arenaExhausted := by
  obtain ⟨idx, s₁, hidx, hcase⟩ := h.rest_cases hr
  rcases hcase with ⟨e', rfl, rfl, -⟩ | ⟨k, -, hend, -⟩
  · obtain rfl := Option.some.inj he
    rcases (h.ensureIndexForPrice_cases hidx).2 with ⟨hneg, -⟩ | ⟨-, ⟨e', he', hoff⟩ | ⟨k, hk⟩⟩
    · exact absurd hw hneg
    · cases he'
      exact Or.inl hoff
    · cases hk
  · rcases hend with hend | hend
    · rw [he] at hend
      cases hend
    · exact Or.inr (Option.some.inj (he.symm.trans hend))

/-- Where an order comes to rest, there can be a price axis. -/
theorem Settled.rest_window (h : Settled s c) (hr : s.rest req = .ok (none, s')) : WindowFits s.initialWindow := by
  obtain ⟨idx, s₁, hidx, hcase⟩ := h.rest_cases hr
  rcases (h.ensureIndexForPrice_cases hidx).2 with ⟨-, rfl⟩ | ⟨hw, -⟩
  · rcases hcase with ⟨e, -, he, -⟩ | ⟨k, hk, -⟩
    · cases he
    · cases hk
  · exact hw

/-- A new order at the price finds a level, and a cell beside the orders of the book `b`. -/
def OrderBookV2.HasPlace (s : OrderBookV2) (b : Book) (p : ℤ) : Prop :=
  WindowFits s.initialWindow ∧ s.Placeable p ∧ b.orders.length < s.arenaCapacity

instance (s : OrderBookV2) (b : Book) (p : ℤ) : Decidable (s.HasPlace b p) := inferInstanceAs (Decidable (_ ∧ _ ∧ _))

theorem Frame.hasPlace (hf : Frame s s') (b : Book) : s'.HasPlace b p ↔ s.HasPlace b p := by
  rw [OrderBookV2.HasPlace, OrderBookV2.HasPlace, hf.window, hf.placeable, hf.capacity]

/-- **An order comes to rest** if and only if it has a place. -/
theorem Settled.rest_returns_iff (h : Settled s c) (hp : InI64 req.price) (hstay : StaysBehind (s.bookOf c) req)
    {thrown : Option Exn} (hr : s.rest req = .ok (thrown, s')) :
    thrown = none ↔ s.HasPlace (s.bookOf c) req.price := by
  obtain ⟨c', hres⟩ := (h.rest hp hstay).elim hr
  have hrefuses := h.rest_refuses_iff hr
  constructor
  · rintro rfl
    refine ⟨h.rest_window hr, ?_, ?_⟩
    · by_contra hno
      obtain ⟨e, he, -⟩ := hrefuses.mpr hno
      cases he
    · -- the order has a cell now
      have hcells := hres.settled.length_orders
      have hbump := hres.settled.bump_le
      rw [hres.joined rfl, length_join] at hcells
      rw [hres.params.1] at hbump
      omega
  · rintro ⟨hw, hplace, hcell⟩
    by_contra hthrown
    obtain ⟨e, he⟩ := Option.ne_none_iff_exists'.mp hthrown
    rcases h.rest_throws hw hr he with hoff | rfl
    · exact hrefuses.mp ⟨e, he, hoff⟩ hplace
    · have hfull := hres.exhausted he
      omega

/-- **A post-only order that does not cross** is added if and only if it has a place. -/
theorem Settled.postOnly_returns_iff (h : Settled s c) (htype : req.type = .postOnly) (hp : InI64 req.price)
    (hcross : (s.bookOf c).crosses req = false) {r : AddResult} (hr : s.add req = .ok r) :
    r.thrown = none ↔ s.HasPlace (s.bookOf c) req.price := by
  have hmarket : req.type ≠ .market := by rw [htype]; decide
  rw [OrderBookV2.add, htype] at hr
  dsimp only at hr
  rw [h.wouldCross hmarket, ok_bind, hcross, if_neg (by decide)] at hr
  obtain ⟨⟨thrown, s₁⟩, hrest, hr⟩ := bind_eq_ok.mp hr
  cases hr
  exact h.rest_returns_iff hp (staysBehind_of_not_crosses hmarket hcross) hrest

end MatchingEngine
