import Stockly.LowercaseMapping
import Stockly.PathSegments

/-!
# The paths of the requests

A search term or a ticker is spliced into the path before the path is
encoded, and the encoding leaves a slash as it is.  So the text is one segment
of the path exactly when it has no slash, and it is still there once dot
segments are resolved exactly when it is not one itself.
-/

namespace Stockly

open LowercaseMapping PathSegments

/-- `CharacterSet.urlPathAllowed`. -/
def urlPathAllowed (letter : Char) : Bool :=
  letter.isAlphanum || "!$&'()*+,-./:=@_~".toList.contains letter

structure URLQueryItem where
  name : String
  value : String
deriving DecidableEq, Repr

structure URLComponents where
  scheme : String
  host : String
  percentEncodedPath : String
  queryItems : List URLQueryItem
deriving DecidableEq, Repr

/-- What an assignment to `path` leaves in the URL. -/
def percentEncodedPath (path : String) : String :=
  String.ofList (PercentEncoding.encode urlPathAllowed path.toList)

/-- The components of every request, which differ in path and query. -/
def apiComponents (path : String) (queryItems : List URLQueryItem) :
    URLComponents :=
  { scheme := "https", host := "cloud.iexapis.com"
    percentEncodedPath := percentEncodedPath path, queryItems := queryItems }

/-! `token` is the same constant in all requests. -/

def batchQueryItems (token : String) : List URLQueryItem :=
  [⟨"token", token⟩, ⟨"types", "quote,news,chart"⟩, ⟨"range", "1m"⟩,
    ⟨"last", "5"⟩]

namespace StockController

def searchStockComponents (token searchTerm : String) : URLComponents :=
  apiComponents ("/stable/search/" ++ searchTerm) [⟨"token", token⟩]

def fetchStockComponents (token stock : String) : URLComponents :=
  apiComponents ("/stable/stock/" ++ lowercased stock ++ "/batch")
    (batchQueryItems token)

def fetchLogoComponents (token stock : String) : URLComponents :=
  apiComponents ("/stable/stock/" ++ lowercased stock ++ "/logo")
    [⟨"token", token⟩]

end StockController

namespace ProfileController

def fetchStockComponents (token stock : String) : URLComponents :=
  apiComponents ("/stable/stock/" ++ lowercased stock ++ "/batch")
    (batchQueryItems token)

end ProfileController

/-! ## Requests for a text -/

inductive TextRequest where
  | searchStock (searchTerm : String)
  | fetchStock (stock : String)
  | fetchLogo (stock : String)
  | profileFetchStock (stock : String)
deriving DecidableEq, Repr

namespace TextRequest

def text : TextRequest → String
  | .searchStock searchTerm => searchTerm
  | .fetchStock stock => stock
  | .fetchLogo stock => stock
  | .profileFetchStock stock => stock

def components (token : String) : TextRequest → URLComponents
  | .searchStock searchTerm =>
      StockController.searchStockComponents token searchTerm
  | .fetchStock stock => StockController.fetchStockComponents token stock
  | .fetchLogo stock => StockController.fetchLogoComponents token stock
  | .profileFetchStock stock =>
      ProfileController.fetchStockComponents token stock

/-- The segments which the path is meant to have. -/
def expected : TextRequest → List String
  | .searchStock searchTerm => ["stable", "search", searchTerm]
  | .fetchStock stock => ["stable", "stock", lowercased stock, "batch"]
  | .fetchLogo stock => ["stable", "stock", lowercased stock, "logo"]
  | .profileFetchStock stock => ["stable", "stock", lowercased stock, "batch"]

def path (token : String) (request : TextRequest) : String :=
  (request.components token).percentEncodedPath

/-- A text which is one segment of a path and stays one. -/
structure PlainSegment (text : String) : Prop where
  slash : '/' ∉ text.toList
  dots : ¬ IsDots text

/-! ## The segments -/

/-- The segment made of the text, and the segments around it. -/
def inserted : TextRequest → String
  | .searchStock searchTerm => searchTerm
  | .fetchStock stock => lowercased stock
  | .fetchLogo stock => lowercased stock
  | .profileFetchStock stock => lowercased stock

def front : TextRequest → List String
  | .searchStock _ => ["stable", "search"]
  | _ => ["stable", "stock"]

def back : TextRequest → List String
  | .searchStock _ => []
  | .fetchLogo _ => ["logo"]
  | _ => ["batch"]

theorem expected_eq (request : TextRequest) :
    request.expected =
      request.front ++ [request.inserted] ++ request.back := by
  cases request <;> rfl

theorem segments_percentEncodedPath (body : String) :
    segments (percentEncodedPath ("/" ++ body)) = some (pieces body) :=
  segments_encode (by decide) (by decide) body

theorem pieces_search (searchTerm : String) :
    segments (percentEncodedPath ("/stable/search/" ++ searchTerm)) =
      some (["stable", "search"] ++ pieces searchTerm) := by
  have hpath : "/stable/search/" ++ searchTerm =
      "/" ++ ("stable" ++ "/" ++ ("search" ++ "/" ++ searchTerm)) := by
    apply String.toList_injective
    simp [String.toList_append]
  rw [hpath, segments_percentEncodedPath, pieces_append, pieces_append,
    pieces_of_notMem (by decide), pieces_of_notMem (by decide)]
  rfl

theorem pieces_stock (stock ending : String) (hending : '/' ∉ ending.toList) :
    segments (percentEncodedPath
        ("/stable/stock/" ++ stock ++ ("/" ++ ending))) =
      some (["stable", "stock"] ++ pieces stock ++ [ending]) := by
  have hpath : "/stable/stock/" ++ stock ++ ("/" ++ ending) =
      "/" ++ ("stable" ++ "/" ++ ("stock" ++ "/" ++
        (stock ++ "/" ++ ending))) := by
    apply String.toList_injective
    simp [String.toList_append]
  rw [hpath, segments_percentEncodedPath, pieces_append, pieces_append,
    pieces_append, pieces_of_notMem hending, pieces_of_notMem (by decide),
    pieces_of_notMem (by decide)]
  simp

theorem segments_path (token : String) (request : TextRequest) :
    segments (request.path token) =
      some (request.front ++ pieces request.inserted ++ request.back) := by
  cases request with
  | searchStock searchTerm =>
      exact (pieces_search searchTerm).trans (by simp [front, back, inserted])
  | fetchStock stock => exact pieces_stock (lowercased stock) "batch" (by decide)
  | fetchLogo stock => exact pieces_stock (lowercased stock) "logo" (by decide)
  | profileFetchStock stock =>
      exact pieces_stock (lowercased stock) "batch" (by decide)

/-! ## Lowercase segments -/

theorem slash_mem_lowercased (text : String) :
    '/' ∈ (lowercased text).toList ↔ '/' ∈ text.toList :=
  mem_lowercased (by decide)

theorem isDots_lowercased (text : String) :
    IsDots (lowercased text) ↔ IsDots text := by
  have hmark : IsMark '.' := by decide
  have hdot : lowercased text = "." ↔ text = "." :=
    lowercased_marks hmark (by simp)
  have hdots : lowercased text = ".." ↔ text = ".." :=
    lowercased_marks hmark (by simp)
  rw [IsDots, IsDots, hdot, hdots]

theorem inserted_cases (request : TextRequest) :
    request.inserted = request.text ∨
      request.inserted = lowercased request.text := by
  cases request with
  | searchStock searchTerm => exact .inl rfl
  | fetchStock stock => exact .inr rfl
  | fetchLogo stock => exact .inr rfl
  | profileFetchStock stock => exact .inr rfl

theorem slash_mem_inserted (request : TextRequest) :
    '/' ∈ request.inserted.toList ↔ '/' ∈ request.text.toList := by
  rcases inserted_cases request with heq | heq
  · rw [heq]
  · rw [heq, slash_mem_lowercased]

theorem isDots_inserted (request : TextRequest) :
    IsDots request.inserted ↔ IsDots request.text := by
  rcases inserted_cases request with heq | heq
  · rw [heq]
  · rw [heq, isDots_lowercased]

theorem plainSegment_inserted (request : TextRequest) :
    PlainSegment request.inserted ↔ PlainSegment request.text := by
  constructor
  · intro hplain
    rcases hplain with ⟨hslash, hdots⟩
    exact ⟨(slash_mem_inserted request).not.mp hslash,
      (isDots_inserted request).not.mp hdots⟩
  · intro hplain
    rcases hplain with ⟨hslash, hdots⟩
    exact ⟨(slash_mem_inserted request).not.mpr hslash,
      (isDots_inserted request).not.mpr hdots⟩

/-! ## Exact paths -/

theorem plainSegment_around (request : TextRequest) :
    (∀ segment ∈ request.front, PlainSegment segment) ∧
      ∀ segment ∈ request.back, PlainSegment segment := by
  have hliteral : ∀ segment ∈ ["stable", "search", "stock", "batch", "logo"],
      PlainSegment segment := by
    intro segment hsegment
    constructor
    · revert segment
      decide
    · revert segment
      decide
  have hfront : request.front ⊆
      ["stable", "search", "stock", "batch", "logo"] := by
    cases request <;> simp [front]
  have hback : request.back ⊆
      ["stable", "search", "stock", "batch", "logo"] := by
    cases request <;> simp [back]
  exact ⟨fun segment hmem => hliteral segment (hfront hmem),
    fun segment hmem => hliteral segment (hback hmem)⟩

/-- The path is split where it should be. -/
def SegmentsExact (token : String) (request : TextRequest) : Prop :=
  segments (request.path token) = some request.expected

/-- The path leads where it should when dot segments are resolved. -/
def ResourceExact (token : String) (request : TextRequest) : Prop :=
  resource (request.path token) = some request.expected

theorem segmentsExact_iff (token : String) (request : TextRequest) :
    SegmentsExact token request ↔ '/' ∉ request.text.toList := by
  rw [SegmentsExact, segments_path, expected_eq, Option.some.injEq,
    List.append_left_inj, List.append_right_inj, pieces_eq_singleton_iff,
    slash_mem_inserted]

theorem resource_path (token : String) (request : TextRequest) :
    resource (request.path token) =
      some (resolveDots []
        (request.front ++ pieces request.inserted ++ request.back)) := by
  rw [resource, segments_path]
  rfl

theorem plainSegment_of_resourceExact {token : String}
    {request : TextRequest} (hexact : ResourceExact token request) :
    PlainSegment request.inserted := by
  rw [ResourceExact, resource_path, Option.some.injEq] at hexact
  rcases plainSegment_around request with ⟨hfront, hback⟩
  have hempty : PlainSegment "" := ⟨by decide, by decide⟩
  have hpieces : ∀ segment ∈ pieces request.inserted,
      ¬ IsDots segment → PlainSegment segment := by
    intro segment hsegment hdots
    exact ⟨notMem_of_mem_pieces hsegment, hdots⟩
  have haround : ∀ segment ∈
      request.front ++ pieces request.inserted ++ request.back,
        ¬ IsDots segment → PlainSegment segment := by
    simp only [List.forall_mem_append]
    exact ⟨⟨fun segment hmem _ => hfront segment hmem, hpieces⟩,
      fun segment hmem _ => hback segment hmem⟩
  have hall := forall_resolveDots hempty
    (fun segment hsegment => absurd hsegment List.not_mem_nil) haround
  apply hall
  rw [hexact, expected_eq]
  simp

theorem resourceExact_of_plainSegment (token : String)
    {request : TextRequest} (hplain : PlainSegment request.inserted) :
    ResourceExact token request := by
  rcases plainSegment_around request with ⟨hfront, hback⟩
  have hall : ∀ segment ∈
      request.front ++ [request.inserted] ++ request.back,
        PlainSegment segment := by
    simp only [List.forall_mem_append, List.forall_mem_singleton]
    exact ⟨⟨hfront, hplain⟩, hback⟩
  rw [ResourceExact, resource_path, pieces_of_notMem hplain.slash,
    resolveDots_eq_self fun segment hsegment => (hall segment hsegment).dots,
    expected_eq]

theorem resourceExact_iff (token : String) (request : TextRequest) :
    ResourceExact token request ↔ PlainSegment request.text := by
  rw [← plainSegment_inserted]
  exact ⟨plainSegment_of_resourceExact, resourceExact_of_plainSegment token⟩

/-! ## Different terms -/

theorem path_searchStock_injective (token : String) {first second : String}
    (heq : (searchStock first).path token =
      (searchStock second).path token) :
    first = second := by
  have hpercent : urlPathAllowed '%' = false := by decide
  have hencoded := String.ofList_injective heq
  have htext := PercentEncoding.encode_injective hpercent hencoded
  rw [String.toList_append, String.toList_append] at htext
  exact String.toList_injective (List.append_cancel_left htext)

theorem resource_searchStock_injective (token : String)
    {first second : String} (hfirst : PlainSegment first)
    (hsecond : PlainSegment second)
    (heq : resource ((searchStock first).path token) =
      resource ((searchStock second).path token)) :
    first = second := by
  have hexactFirst : ResourceExact token (searchStock first) :=
    (resourceExact_iff token (searchStock first)).mpr hfirst
  have hexactSecond : ResourceExact token (searchStock second) :=
    (resourceExact_iff token (searchStock second)).mpr hsecond
  rw [hexactFirst, hexactSecond] at heq
  simpa [expected] using heq

/-- The decoded segments are exact without a slash.  Where dot segments are
resolved the text must not be one either; such terms never meet, and without
the resolution no two terms do. -/
theorem path_exact_iff (token : String) (request : TextRequest) :
    (SegmentsExact token request ↔ '/' ∉ request.text.toList) ∧
      (SegmentsExact token request ∧ ResourceExact token request ↔
        PlainSegment request.text) ∧
      (∀ first second : String, first ≠ second →
        (searchStock first).path token ≠ (searchStock second).path token) ∧
      ∀ first second : String, PlainSegment first → PlainSegment second →
        first ≠ second →
          resource ((searchStock first).path token) ≠
            resource ((searchStock second).path token) := by
  refine ⟨segmentsExact_iff token request, ?_, ?_, ?_⟩
  · rw [segmentsExact_iff, resourceExact_iff]
    constructor
    · exact And.right
    · intro hplain
      exact ⟨hplain.slash, hplain⟩
  · intro first second hne heq
    exact hne (path_searchStock_injective token heq)
  · intro first second hfirst hsecond hne heq
    exact hne (resource_searchStock_injective token hfirst hsecond heq)

theorem not_segmentsExact_slash :
    segments ((searchStock "Novo Nordisk A/S").path "token") =
        some ["stable", "search", "Novo Nordisk A", "S"] ∧
      ¬ SegmentsExact "token" (.searchStock "Novo Nordisk A/S") ∧
      resource ((searchStock "../stock/aapl/batch").path "token") =
        some (fetchStock "AAPL").expected := by
  have hsegments : segments ((searchStock "Novo Nordisk A/S").path "token") =
      some ["stable", "search", "Novo Nordisk A", "S"] := by
    rw [segments_path]
    decide +kernel
  refine ⟨hsegments, ?_, ?_⟩
  · rw [SegmentsExact, hsegments]
    decide
  · rw [resource_path]
    decide +kernel

end TextRequest

end Stockly
