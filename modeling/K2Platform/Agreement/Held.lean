import K2Platform.Lake.Cast
import K2Platform.Lake.HeldBook

/-!
# The book the replay holds, and the book the capture holds

The two books are the same pair of maps.  They part only where a quantity is negative, which no
numeral that the capture reads is.

* `ofCapture_apply`, `ofCapture_truncate` — one level, or one truncation, on both sides.
-/

set_option autoImplicit false

namespace K2.Lake

open K2.Capture (BookSide parseFixed)

/-! ## The two books -/

/-- The lake's book with the levels of the capture's. -/
def Book.ofCapture (b : Capture.Book) : Book := ⟨b.bids, b.asks⟩

theorem setLevel_eq (levels : SortedMap Int Int) (px : Int) {qty : Int} (h : 0 ≤ qty) :
    Capture.Book.setLevel levels px qty = Book.setLevel levels px qty := by
  unfold Capture.Book.setLevel Book.setLevel
  have hzero : qty ≤ 0 ↔ qty = 0 := by omega
  simp only [hzero]

theorem ofCapture_apply (b : Capture.Book) (side : BookSide) (px : Int) {qty : Int} (h : 0 ≤ qty) :
    Book.ofCapture (b.apply side px qty) = (Book.ofCapture b).apply side px qty := by
  cases side with
  | bid => exact congrArg (Book.mk · b.asks) (setLevel_eq b.bids px h)
  | ask => exact congrArg (Book.mk b.bids) (setLevel_eq b.asks px h)

theorem ofCapture_truncate (b : Capture.Book) (depth : Nat) :
    Book.ofCapture (b.truncate depth) = (Book.ofCapture b).truncate depth := rfl

/-! ## One number on both sides -/

/-- The text is a price or a quantity that the capture reads, and `unscaled` what the lake makes
    of it. -/
structure SameNumber (text : String) (unscaled : Int) : Prop where
  accepted : ∃ v, parseFixed text = .ok v
  cast : castDecimal text = some unscaled

theorem SameNumber.value {text : String} {unscaled : Int} (h : SameNumber text unscaled) :
    parseFixed text = .ok (e8 unscaled) ∧ 0 ≤ e8 unscaled := by
  obtain ⟨v, hv⟩ := h.accepted
  obtain ⟨hcast, hnonneg⟩ := castDecimal_of_parseFixed hv
  have heq : unscaled = v * 100 := Option.some.inj (h.cast.symm.trans hcast)
  have he8 : e8 unscaled = v := by
    rw [heq, e8]
    exact Int.mul_tdiv_cancel v (by decide)
  rw [he8]
  exact ⟨hv, hnonneg⟩

end K2.Lake
