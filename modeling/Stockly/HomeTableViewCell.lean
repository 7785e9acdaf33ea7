import Stockly.LastWrite
import Stockly.StockLabels

/-!
# Reused cells of the Home table

A cell is reused for one stock after another.  Each of its labels is a
register: it shows what the last stock wrote that wrote to it at all.
-/

namespace Stockly.HomeTableViewCell

structure Content where
  name : Option String
  symbol : Option String
  price : Option String
  change : Option String
  changeColor : Option TextColor
deriving DecidableEq, Repr

def content (cell : HomeTableViewCell) : Content :=
  { name := cell.stockNameLabel
    symbol := cell.stockSymbolLabel
    price := cell.stockPriceLabel
    change := cell.stockChangeLabel
    changeColor := cell.stockChangeLabelColor }

def reuse (history : List Batch) (cell : HomeTableViewCell) :
    HomeTableViewCell :=
  history.foldl (fun cell stock => cell.setStock (some stock)) cell

/-! ## The registers -/

/-- Symbol, price and colour are written together, by a stock with a latest
price. -/
def writesPrice (stock : Batch) : Option (String × String × TextColor) :=
  stock.quote.latestPrice.map fun price =>
    (stock.quote.symbol, price.priceText,
      signColor (optionalText stock.quote.change))

/-- The change is written by a stock with a latest price and a percentage. -/
def writesChange (stock : Batch) : Option String :=
  stock.quote.latestPrice.bind fun _ =>
    stock.quote.changePercent.map Double.percentText

def pricePart (content : Content) :
    Option String × Option String × Option TextColor :=
  (content.symbol, content.price, content.changeColor)

def priceAfter (cell : HomeTableViewCell) (history : List Batch) :
    Option String × Option String × Option TextColor :=
  ((lastWrite writesPrice history).map fun written =>
    (some written.1, some written.2.1, some written.2.2)).getD
      (pricePart cell.content)

def changeAfter (cell : HomeTableViewCell) (history : List Batch) :
    Option String :=
  ((lastWrite writesChange history).map some).getD cell.content.change

theorem content_setStock (cell : HomeTableViewCell) (stock : Batch) :
    (cell.setStock (some stock)).content.name =
        some stock.quote.companyName ∧
      pricePart (cell.setStock (some stock)).content =
        ((writesPrice stock).map fun written =>
          (some written.1, some written.2.1, some written.2.2)).getD
            (pricePart cell.content) ∧
      (cell.setStock (some stock)).content.change =
        ((writesChange stock).map some).getD cell.content.change := by
  cases hprice : stock.quote.latestPrice <;>
    cases hpercent : stock.quote.changePercent <;>
    simp [setStock, updateViews, content, pricePart, writesPrice,
      writesChange, hprice, hpercent]

theorem content_reuse (cell : HomeTableViewCell) (history : List Batch) :
    pricePart (cell.reuse history).content = cell.priceAfter history ∧
      (cell.reuse history).content.change = cell.changeAfter history := by
  constructor
  · exact @foldl_eq_lastWrite _ _ _ _ (fun cell => pricePart cell.content)
      _ _ writesPrice (fun cell stock => (content_setStock cell stock).2.1)
      cell history
  · exact @foldl_eq_lastWrite _ _ _ _ (fun cell => cell.content.change)
      _ _ writesChange (fun cell stock => (content_setStock cell stock).2.2)
      cell history

theorem reuse_concat (cell : HomeTableViewCell) (history : List Batch)
    (stock : Batch) :
    cell.reuse (history ++ [stock]) =
      (cell.reuse history).setStock (some stock) := by
  unfold reuse
  rw [List.foldl_append]
  rfl

theorem content_eq_iff (first second : Content) :
    first = second ↔
      first.name = second.name ∧ pricePart first = pricePart second ∧
        first.change = second.change := by
  rcases first with ⟨name, symbol, price, change, color⟩
  rcases second with ⟨name', symbol', price', change', color'⟩
  simp only [pricePart, Content.mk.injEq, Prod.mk.injEq]
  tauto

/-! ## Two histories -/

/-- The parts that the stock leaves alone read the same after both
histories. -/
def SameBefore (cell : HomeTableViewCell) (first second : List Batch)
    (stock : Batch) : Prop :=
  (stock.quote.latestPrice = none →
      cell.priceAfter first = cell.priceAfter second) ∧
    (stock.quote.latestPrice = none ∨ stock.quote.changePercent = none →
      cell.changeAfter first = cell.changeAfter second)

theorem content_reuse_eq_iff (cell : HomeTableViewCell)
    (first second : List Batch) (stock : Batch) :
    (cell.reuse (first ++ [stock])).content =
        (cell.reuse (second ++ [stock])).content ↔
      SameBefore cell first second stock := by
  rcases content_reuse cell first with ⟨hprice, hchange⟩
  rcases content_reuse cell second with ⟨hprice', hchange'⟩
  rcases content_setStock (cell.reuse first) stock with ⟨hname, hpart, htext⟩
  obtain ⟨hname', hpart', htext'⟩ :=
    content_setStock (cell.reuse second) stock
  rw [reuse_concat, reuse_concat, content_eq_iff, hname, hname', hpart,
    hpart', htext, htext', hprice, hprice', hchange, hchange']
  unfold SameBefore writesPrice writesChange
  cases stock.quote.latestPrice <;> cases stock.quote.changePercent <;> simp

def pricedStock (symbol : String) (percentage : Double) : Batch :=
  { quote :=
      { Quote.named symbol symbol with
        latestPrice := some .zero
        changePercent := some percentage }
    news := []
    chart := [] }

def onePercent : Double := ⟨false, 1, 0, by decide⟩

def twoPercent : Double := ⟨false, 2, 0, by decide⟩

/-- Two histories that end with the same stock show the same exactly when
what this stock leaves alone was the same before; whatever came before, they
do so exactly when it has a latest price and a percentage. -/
theorem content_of_last_stock_iff (cell : HomeTableViewCell) :
    (∀ (first second : List Batch) (stock : Batch),
      (cell.reuse (first ++ [stock])).content =
          (cell.reuse (second ++ [stock])).content ↔
        SameBefore cell first second stock) ∧
    (∀ stock : Batch,
      (∀ first second : List Batch,
        (cell.reuse (first ++ [stock])).content =
          (cell.reuse (second ++ [stock])).content) ↔
        stock.quote.latestPrice.isSome ∧
          stock.quote.changePercent.isSome) := by
  refine ⟨content_reuse_eq_iff cell, fun stock => ?_⟩
  simp only [content_reuse_eq_iff]
  constructor
  · -- the histories of one stock with another name and another percentage
    intro hsame
    obtain ⟨hprice, hchange⟩ := hsame [pricedStock "AAPL" onePercent]
      [pricedStock "TSLA" twoPercent]
    have hsymbols : cell.priceAfter [pricedStock "AAPL" onePercent] ≠
        cell.priceAfter [pricedStock "TSLA" twoPercent] := by
      intro heq
      have hsymbol : some "AAPL" = some "TSLA" := congrArg Prod.fst heq
      exact absurd hsymbol (by decide)
    have htexts : cell.changeAfter [pricedStock "AAPL" onePercent] ≠
        cell.changeAfter [pricedStock "TSLA" twoPercent] := by
      intro heq
      have htext : some onePercent.percentText =
          some twoPercent.percentText := heq
      exact absurd htext (by decide +kernel)
    constructor
    · rw [Option.isSome_iff_ne_none]
      intro hnone
      exact hsymbols (hprice hnone)
    · rw [Option.isSome_iff_ne_none]
      intro hnone
      exact htexts (hchange (.inr hnone))
  · rintro ⟨hprice, hpercent⟩ first second
    rw [Option.isSome_iff_ne_none] at hprice hpercent
    refine ⟨fun hnone => absurd hnone hprice, ?_⟩
    rintro (hnone | hnone)
    · exact absurd hnone hprice
    · exact absurd hnone hpercent

theorem not_content_of_last_stock :
    ¬ ∀ (first second : List Batch) (stock : Batch),
      (prototype.reuse (first ++ [stock])).content =
        (prototype.reuse (second ++ [stock])).content := by
  intro hall
  have hsame := hall [pricedStock "AAPL" onePercent] []
    (.named "TSLA" "Tesla Inc")
  have hsymbol : some "AAPL" = none := congrArg Content.symbol hsame
  contradiction

end Stockly.HomeTableViewCell
