import Stockly.DoubleSign
import Stockly.DoubleText
import Stockly.ProfileTableViewController

/-!
# The labels of a stock

Two table cells and the two detail screens show the price and the change
percentage of a stock.  Each of the four has its own copy of the code that
looks for a minus sign in a printed number and colours the percentage.  A label
which nothing has been written to yet is `none`.
-/

namespace Stockly

inductive TextColor where
  | red
  | green
deriving DecidableEq, Repr

/-- `if text.contains("-")`: red, else green. -/
def signColor (text : String) : TextColor :=
  if '-' ∈ text.toList then .red else .green

/-- The text which interpolating an optional number gives. -/
def optionalText : Option Double → String
  | none => "nil"
  | some number => "Optional(" ++ number.description ++ ")"

/-! ## The two cells -/

structure WatchListTableViewCell where
  stock : Option UserStock
  nameLabel : Option String
  percentLabel : Option String
  percentLabelColor : Option TextColor
  symbolLabel : Option String
  latestPriceLabel : Option String
deriving DecidableEq, Repr

namespace WatchListTableViewCell

def updateViews (cell : WatchListTableViewCell) : WatchListTableViewCell :=
  match cell.stock with
  | none => cell
  | some stock =>
      { cell with
        nameLabel := some stock.stockName
        percentLabel := some stock.stockPercentage.percentText
        symbolLabel := some stock.stockSymbol
        latestPriceLabel := some stock.stockLatestPrice.priceText
        percentLabelColor :=
          some (signColor stock.stockPercentage.description) }

def setStock (stock : Option UserStock) (cell : WatchListTableViewCell) :
    WatchListTableViewCell :=
  updateViews { cell with stock := stock }

end WatchListTableViewCell

structure HomeTableViewCell where
  stock : Option Batch
  stockNameLabel : Option String
  stockPriceLabel : Option String
  stockSymbolLabel : Option String
  stockChangeLabel : Option String
  stockChangeLabelColor : Option TextColor
deriving DecidableEq, Repr

namespace HomeTableViewCell

/-- Without a latest price it returns after the name; without a percentage it
leaves the label of the change as it is.  The colour comes from `change`, the
text from `changePercent`. -/
def updateViews (cell : HomeTableViewCell) : HomeTableViewCell :=
  match cell.stock with
  | none => cell
  | some stock =>
      let cell :=
        { cell with stockNameLabel := some stock.quote.companyName }
      match stock.quote.latestPrice with
      | none => cell
      | some stockLatestPrice =>
          let cell :=
            match stock.quote.changePercent with
            | none => cell
            | some stockChangePercentage =>
                { cell with
                  stockChangeLabel := some stockChangePercentage.percentText }
          { cell with
            stockSymbolLabel := some stock.quote.symbol
            stockPriceLabel := some stockLatestPrice.priceText
            stockChangeLabelColor :=
              some (signColor (optionalText stock.quote.change)) }

def setStock (stock : Option Batch) (cell : HomeTableViewCell) :
    HomeTableViewCell :=
  updateViews { cell with stock := stock }

end HomeTableViewCell

/-! ## The two detail screens -/

structure DetailLabels where
  title : Option String
  priceLabel : Option String
  percentLabel : Option String
  percentLabelColor : Option TextColor
  collectionViewData : List News
deriving DecidableEq, Repr

def HomeStockDetialViewController.updateViews (stock : Option Batch)
    (labels : DetailLabels) : DetailLabels :=
  match stock with
  | none => labels
  | some stock =>
      let labels := { labels with title := some stock.quote.symbol }
      let labels :=
        match stock.quote.latestPrice with
        | none => labels
        | some latestPrice =>
            { labels with priceLabel := some latestPrice.priceText }
      let labels :=
        match stock.quote.changePercent with
        | none => labels
        | some changePercentage =>
            { labels with
              percentLabel := some changePercentage.percentText
              percentLabelColor :=
                some (signColor changePercentage.description) }
      { labels with collectionViewData := stock.news }

/-- `ResultsViewController.updateViews`, with the quote and the news of its
controller.  The title is set elsewhere. -/
def ResultsViewController.updateViews (quote : Option Quote)
    (news : List News) (labels : DetailLabels) : DetailLabels :=
  match quote with
  | none => labels
  | some quote =>
      let labels :=
        match quote.latestPrice with
        | none => labels
        | some latestPrice =>
            { labels with priceLabel := some latestPrice.priceText }
      let labels :=
        match quote.changePercent with
        | none => labels
        | some changePercentage =>
            { labels with
              percentLabel := some changePercentage.percentText
              percentLabelColor :=
                some (signColor changePercentage.description) }
      { labels with collectionViewData := news }

/-! ## Colours and signs -/

def ColorRight (color : Option TextColor) (percentage : Double) : Prop :=
  color = some (if percentage.value < 0 then .red else .green)

/-- A percentage whose description has a minus sign exactly when it is
negative. -/
def SignGuard (percentage : Double) : Prop :=
  ¬ (percentage.negative = true ∧ percentage.digits = 0) ∧
    ¬ (0 < percentage.value ∧ percentage.value < 1 / 10000)

def ChangePrintsMinus (quote : Quote) : Prop :=
  ∃ change, quote.change = some change ∧ change.PrintsMinus

theorem Double.value_neg_iff {number : Double} :
    number.value < 0 ↔ number.negative = true ∧ number.digits ≠ 0 := by
  have hnonneg := number.magnitude_nonneg
  rw [← magnitude_pos_iff]
  unfold value
  cases number.negative with
  | true => simp
  | false => simpa using hnonneg

theorem Double.printsMinus_iff_neg {percentage : Double} :
    (percentage.PrintsMinus ↔ percentage.value < 0) ↔
      SignGuard percentage := by
  unfold PrintsMinus SignGuard
  rw [value_neg_iff]
  cases hsign : percentage.negative with
  | true =>
      have hpositive : ¬ 0 < percentage.value := by
        have hnonneg := percentage.magnitude_nonneg
        simp [value, hsign, hnonneg]
      simp [hpositive]
  | false => simp

theorem signColor_description (number : Double) :
    signColor number.description = .red ↔ number.PrintsMinus := by
  rw [← Double.minus_mem_description_iff]
  unfold signColor
  split <;> simp_all

theorem signColor_optionalText (quote : Quote) :
    signColor (optionalText quote.change) = .red ↔
      ChangePrintsMinus quote := by
  unfold ChangePrintsMinus
  cases hchange : quote.change with
  | none => simp [signColor, optionalText]
  | some change =>
      have hminus := Double.minus_mem_description_iff change
      simpa [signColor, optionalText] using hminus

theorem colorRight_signColor_iff (text : String) (percentage : Double) :
    ColorRight (some (signColor text)) percentage ↔
      (signColor text = .red ↔ percentage.value < 0) := by
  unfold ColorRight signColor
  by_cases hminus : '-' ∈ text.toList <;>
    by_cases hneg : percentage.value < 0 <;> simp [hminus, hneg]

theorem colorRight_description_iff (percentage : Double) :
    ColorRight (some (signColor percentage.description)) percentage ↔
      SignGuard percentage := by
  rw [colorRight_signColor_iff, signColor_description,
    Double.printsMinus_iff_neg]

theorem signColor_eq_iff (first second : String) :
    signColor first = signColor second ↔
      (signColor first = .red ↔ signColor second = .red) := by
  unfold signColor
  by_cases hfirst : '-' ∈ first.toList <;>
    by_cases hsecond : '-' ∈ second.toList <;> simp [hfirst, hsecond]

/-! ### What each renderer colours -/

theorem WatchListTableViewCell.percentLabelColor_setStock (stock : UserStock)
    (cell : WatchListTableViewCell) :
    (cell.setStock (some stock)).percentLabelColor =
      some (signColor stock.stockPercentage.description) := rfl

theorem HomeStockDetialViewController.percentLabelColor_updateViews
    {stock : Batch} {percentage : Double} (labels : DetailLabels)
    (hpercent : stock.quote.changePercent = some percentage) :
    (updateViews (some stock) labels).percentLabelColor =
      some (signColor percentage.description) := by
  unfold updateViews
  cases stock.quote.latestPrice <;> simp [hpercent]

theorem ResultsViewController.percentLabelColor_updateViews
    {quote : Quote} {percentage : Double} (news : List News)
    (labels : DetailLabels)
    (hpercent : quote.changePercent = some percentage) :
    (updateViews (some quote) news labels).percentLabelColor =
      some (signColor percentage.description) := by
  unfold updateViews
  cases quote.latestPrice <;> simp [hpercent]

theorem HomeTableViewCell.stockChangeLabelColor_setStock {stock : Batch}
    {price : Double} (cell : HomeTableViewCell)
    (hprice : stock.quote.latestPrice = some price) :
    (cell.setStock (some stock)).stockChangeLabelColor =
      some (signColor (optionalText stock.quote.change)) := by
  simp [setStock, updateViews, hprice]

/-- Three renderers colour by the sign exactly when the percentage is neither
a negative zero nor positive and below `0.0001`; the Home cell does exactly
when its `change` prints a minus sign for the negative percentages only; all
four agree exactly when `change` and percentage print one together. -/
theorem percentColor_iff (percentage : Double)
    (watchCell : WatchListTableViewCell) (cell : HomeTableViewCell)
    (labels : DetailLabels) :
    (∀ stock : UserStock, stock.stockPercentage = percentage →
      (ColorRight (watchCell.setStock (some stock)).percentLabelColor
          percentage ↔
        SignGuard percentage)) ∧
    (∀ stock : Batch, stock.quote.changePercent = some percentage →
      (ColorRight (HomeStockDetialViewController.updateViews (some stock)
          labels).percentLabelColor percentage ↔
        SignGuard percentage)) ∧
    (∀ (quote : Quote) (news : List News),
      quote.changePercent = some percentage →
        (ColorRight (ResultsViewController.updateViews (some quote) news
            labels).percentLabelColor percentage ↔
          SignGuard percentage)) ∧
    (∀ (stock : Batch) (price : Double),
      stock.quote.latestPrice = some price →
      stock.quote.changePercent = some percentage →
        let watchStock := UserStock.ofQuote stock.quote
        let color := (cell.setStock (some stock)).stockChangeLabelColor
        (ColorRight color percentage ↔
          (ChangePrintsMinus stock.quote ↔ percentage.value < 0)) ∧
        ((color = (watchCell.setStock (some watchStock)).percentLabelColor ∧
            color = (HomeStockDetialViewController.updateViews (some stock)
              labels).percentLabelColor ∧
            color = (ResultsViewController.updateViews (some stock.quote)
              stock.news labels).percentLabelColor) ↔
          (ChangePrintsMinus stock.quote ↔ percentage.PrintsMinus))) := by
  refine ⟨?_, ?_, ?_, ?_⟩
  · intro stock hstock
    rw [WatchListTableViewCell.percentLabelColor_setStock, hstock,
      colorRight_description_iff]
  · intro stock hpercent
    rw [HomeStockDetialViewController.percentLabelColor_updateViews labels
      hpercent, colorRight_description_iff]
  · intro quote news hpercent
    rw [ResultsViewController.percentLabelColor_updateViews news labels
      hpercent, colorRight_description_iff]
  · intro stock price hprice hpercent
    have hstock :
        (UserStock.ofQuote stock.quote).stockPercentage = percentage := by
      simp [UserStock.ofQuote, hpercent]
    simp only
    rw [HomeTableViewCell.stockChangeLabelColor_setStock cell hprice]
    constructor
    · rw [colorRight_signColor_iff, signColor_optionalText]
    · rw [WatchListTableViewCell.percentLabelColor_setStock, hstock,
        HomeStockDetialViewController.percentLabelColor_updateViews labels
          hpercent,
        ResultsViewController.percentLabelColor_updateViews stock.news labels
          hpercent,
        and_self, and_self, Option.some.injEq, signColor_eq_iff,
        signColor_optionalText, signColor_description]

def WatchListTableViewCell.prototype : WatchListTableViewCell :=
  { stock := none, nameLabel := none, percentLabel := none,
    percentLabelColor := none, symbolLabel := none, latestPriceLabel := none }

def HomeTableViewCell.prototype : HomeTableViewCell :=
  { stock := none, stockNameLabel := none, stockPriceLabel := none,
    stockSymbolLabel := none, stockChangeLabel := none,
    stockChangeLabelColor := none }

def fallingQuote : Quote :=
  { Quote.named "AAPL" "Apple Inc" with
    latestPrice := some ⟨false, 17321, -2, by decide⟩
    change := some ⟨true, 21, -1, by decide⟩
    changePercent := some ⟨true, 12, -3, by decide⟩ }

def DetailLabels.prototype : DetailLabels :=
  { title := none, priceLabel := none, percentLabel := none
    percentLabelColor := none, collectionViewData := [] }

theorem percentColor_of_fallingQuote :
    ColorRight (HomeTableViewCell.prototype.setStock
      (some ⟨fallingQuote, [], []⟩)).stockChangeLabelColor
        ⟨true, 12, -3, by decide⟩ := by
  have hcolors := percentColor_iff ⟨true, 12, -3, by decide⟩ .prototype
    .prototype .prototype
  apply ((hcolors.2.2.2 ⟨fallingQuote, [], []⟩ _ rfl rfl).1).mpr
  have hchange : ChangePrintsMinus fallingQuote := ⟨_, rfl, .inl rfl⟩
  have hneg : (⟨true, 12, -3, by decide⟩ : Double).value < 0 :=
    Double.value_neg_iff.mpr ⟨rfl, by decide⟩
  exact iff_of_true hchange hneg

theorem not_colorRight_of_small_percentage :
    ¬ ∀ stock : UserStock,
      ColorRight (WatchListTableViewCell.prototype.setStock
        (some stock)).percentLabelColor stock.stockPercentage := by
  intro hall
  have hright := hall
    { id := "AAPL", stockSymbol := "AAPL", stockName := "Apple Inc",
      stockPercentage := ⟨false, 5, -5, by decide⟩, stockLatestPrice := .zero }
  rw [WatchListTableViewCell.percentLabelColor_setStock,
    colorRight_description_iff] at hright
  refine hright.2 ⟨?_, ?_⟩ <;>
    norm_num [Double.value, Double.magnitude]

end Stockly
