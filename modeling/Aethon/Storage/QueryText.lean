import Mathlib.Data.List.DropRight
import Aethon.Storage.QueryTokens

/-!
# The text of a query is read back

`describe_query` writes one token for each filter that is given, and the parser sets the same
filters. `tokenize_description` is the tokenizer on the whole text and `fold_filter` is the
dispatcher on one field; `parse_describe_query` puts them together.
-/

namespace Aethon.Storage

open Protocol Text

/-! ## The tokens of the description -/

/-- The tokens of a filter, when it is given. -/
def filterTokens (name : String) (value : Option Nat) : List QueryToken :=
  match value with
  | none => []
  | some value => [⟨name.toList, decimal value⟩]

/-- The text ends a word, and no equals sign makes the word a key. -/
structure EndsWord (rest : Text) : Prop where
  bare : Scanning.Stops isBare rest
  sign : (skipSpace rest).head? ≠ some '='

/-- A bound is described by its name and its value. -/
theorem describe_filter_some (name : String) (value : Nat) :
    (describeFilter name (some value)).toList =
      ' ' :: (name.toList ++ '=' :: decimal value) := by
  show (" " ++ name ++ "=" ++ Nat.repr value).toList = _
  simp only [String.toList_append, Nat.toList_repr, decimal, List.append_assoc]
  rfl

theorem ends_word_nil : EndsWord [] where
  bare := Scanning.stops_nil
  sign := (Option.some_ne_none _).symm

/-- A described bound ends the word in front of it. -/
theorem ends_word_filter {name : String} (hname : IsName name.toList) (value : Option Nat)
    {rest : Text} (hrest : EndsWord rest) :
    EndsWord ((describeFilter name value).toList ++ rest) := by
  cases value with
  | none => exact hrest
  | some value =>
    obtain ⟨first, letters, hletters⟩ := List.exists_cons_of_ne_nil hname.1
    have hfirst : isWord first = true := hname.2 first (by rw [hletters]; exact List.mem_cons_self)
    rw [describe_filter_some, hletters]
    refine ⟨Scanning.stops_cons (by decide), ?_⟩
    show (skipSpace (first :: _)).head? ≠ some '='
    rw [skip_space_of_stops (Scanning.stops_cons (is_space_of_word hfirst))]
    rintro heq
    cases heq
    exact absurd hfirst (by decide)

/-- A digit begins a bare value, never a quoted one. -/
theorem bare_decimal (value : Nat) : IsBareValue (decimal value) := by
  have hdigit : ∀ ch ∈ decimal value, ch.isDigit = true := fun ch hch => isDigit_of_mem_decimal hch
  refine ⟨decimal_ne_nil value, fun ch hch => isSpace_of_isDigit (hdigit ch hch), fun hquote => ?_⟩
  exact absurd (hdigit '"' (List.mem_of_head? hquote)) (by decide)

/-- A described bound is one token. -/
theorem tokenize_filter {name : String} (hname : IsName name.toList) (value : Option Nat)
    {rest : Text} (hrest : EndsWord rest) :
    tokenizeQuery ((describeFilter name value).toList ++ rest) =
      filterTokens name value ++ tokenizeQuery rest := by
  cases value with
  | none => rfl
  | some value =>
    have hvalue := bare_decimal value
    have hnext := @next_token_pair [' '] name.toList [] [] _ _ rest
      (List.forall_mem_singleton.mpr (by decide)) hname
      (List.forall_mem_nil _) (List.forall_mem_nil _) (hvalue.stops_space rest)
      (parse_value_bare hvalue hrest.bare)
    rw [describe_filter_some]
    rw [List.append_nil, List.singleton_append] at hnext
    exact tokenize_of_some hnext

/-- The space in front of a token does not matter. -/
theorem tokenize_skip_space (expression : Text) :
    tokenizeQuery (skipSpace expression) = tokenizeQuery expression := by
  have hnext : nextToken (skipSpace expression) = nextToken expression := by
    have hskip : skipSpace (skipSpace expression) = skipSpace expression :=
      List.dropWhile_idempotent isSpace expression
    rw [nextToken, nextToken, hskip]
  cases h : nextToken expression with
  | none =>
    rw [tokenize_of_none h, tokenize_of_none (hnext.trans h)]
  | some next =>
    rw [tokenize_of_some h, tokenize_of_some (hnext.trans h)]

/-- A word that no equals sign follows is a token without a value. -/
theorem tokenize_word {name : Text} (hname : IsName name) {rest : Text} (hrest : EndsWord rest) :
    tokenizeQuery (name ++ rest) = ⟨name, []⟩ :: tokenizeQuery rest := by
  have hstop : Scanning.Stops isWord rest := by
    intro ch hch
    have := hrest.bare ch hch
    rw [isBare, Bool.not_eq_false'] at this
    rw [isWord, this]
    rfl
  obtain ⟨first, letters, rfl⟩ := List.exists_cons_of_ne_nil hname.1
  have hskip : skipSpace (first :: letters ++ rest) = first :: (letters ++ rest) :=
    skip_space_of_stops (hname.stops_space rest)
  have hword : parseWord (first :: (letters ++ rest)) = (first :: letters, rest) :=
    parse_word_name hname hstop
  rw [← tokenize_skip_space rest]
  apply tokenize_of_some
  unfold nextToken
  rw [hskip]
  dsimp only
  rw [hword]
  dsimp only
  split
  · next heq => exact absurd (by rw [heq]; rfl) hrest.sign
  · rfl

/-! ## Applying the tokens -/

theorem parse_u64_decimal (value : UInt64) : parseU64 (decimal value.toNat) = some value := by
  rw [parseU64, from_chars_decimal]

theorem parse_size_decimal (value : UInt64) : parseSize (decimal value.toNat) = some value :=
  parse_u64_decimal value

/-- A described kind is parsed. -/
theorem parse_kind_decimal {kind : PacketKind} (hleast : 1 ≤ kind.raw) (hmost : kind.raw ≤ 5) :
    parseKind (decimal kind.raw.toNat) = some kind := by
  obtain ⟨raw⟩ := kind
  have hraw : raw = 1 ∨ raw = 2 ∨ raw = 3 ∨ raw = 4 ∨ raw = 5 := by
    simp only [UInt8.le_iff_toNat_le, ← UInt8.toNat_inj] at hleast hmost ⊢
    change 1 ≤ raw.toNat at hleast
    change raw.toNat ≤ 5 at hmost
    change raw.toNat = 1 ∨ raw.toNat = 2 ∨ raw.toNat = 3 ∨ raw.toNat = 4 ∨ raw.toNat = 5
    omega
  rcases hraw with rfl | rfl | rfl | rfl | rfl
  all_goals rfl

/-- A token with a key and a value is applied. -/
theorem consider_token {name : Text} (hname : name ≠ []) (parsed : ParsedArchiveQuery)
    (value : Nat) :
    considerToken parsed ⟨name, decimal value⟩ = applyToken parsed ⟨name, decimal value⟩ := by
  rw [considerToken, if_neg hname, if_neg (decimal_ne_nil value)]

/-- The tokens of one filter change the query as the dispatcher does for its key. -/
theorem fold_filter {α : Type} {name : String} (hname : name.toList ≠ []) (value : Option α)
    (text : α → Nat) (set : ArchiveQuery → α → ArchiveQuery) (parsed : ParsedArchiveQuery)
    (happly : ∀ given ∈ value,
      (applyToken parsed ⟨name.toList, decimal (text given)⟩).query = set parsed.query given) :
    ((filterTokens name (value.map text)).foldl considerToken parsed).query =
      value.elim parsed.query (set parsed.query) := by
  cases value with
  | none => rfl
  | some given =>
    show (considerToken parsed ⟨name.toList, decimal (text given)⟩).query = set parsed.query given
    rw [consider_token hname]
    exact happly given rfl

section Fields

variable (parsed : ParsedArchiveQuery)

/-- The token of a start sets the start. -/
theorem fold_start_time (value : Option UInt64) :
    ((filterTokens "start_time_ns" (value.map UInt64.toNat)).foldl considerToken parsed).query =
      { parsed.query with startTimeNs := value.or parsed.query.startTimeNs } := by
  rw [fold_filter (toList_ne_nil (by decide)) value UInt64.toNat
    (fun query value => { query with startTimeNs := some value }) parsed]
  · cases value <;> rfl
  · intro given _
    have hlower : lower "start_time_ns".toList = "start_time_ns".toList := by decide
    unfold applyToken
    dsimp only
    rw [parse_u64_decimal]
    simp only [hlower, List.mem_cons, List.not_mem_nil, String.toList_inj, String.reduceEq,
      or_false, or_self, or_true, if_true, if_false]
    rfl

/-- The token of an end sets the end. -/
theorem fold_end_time (value : Option UInt64) :
    ((filterTokens "end_time_ns" (value.map UInt64.toNat)).foldl considerToken parsed).query =
      { parsed.query with endTimeNs := value.or parsed.query.endTimeNs } := by
  rw [fold_filter (toList_ne_nil (by decide)) value UInt64.toNat
    (fun query value => { query with endTimeNs := some value }) parsed]
  · cases value <;> rfl
  · intro given _
    have hlower : lower "end_time_ns".toList = "end_time_ns".toList := by decide
    unfold applyToken
    dsimp only
    rw [parse_u64_decimal]
    simp only [hlower, List.mem_cons, List.not_mem_nil, String.toList_inj, String.reduceEq,
      or_false, or_self, or_true, if_true, if_false]
    rfl

/-- The token of a device sets the device. -/
theorem fold_device (value : Option DeviceId) :
    ((filterTokens "device" (value.map UInt64.toNat)).foldl considerToken parsed).query =
      { parsed.query with device := value.or parsed.query.device } := by
  rw [fold_filter (toList_ne_nil (by decide)) value UInt64.toNat
    (fun query value => { query with device := some value }) parsed]
  · cases value <;> rfl
  · intro given _
    have hlower : lower "device".toList = "device".toList := by decide
    unfold applyToken
    dsimp only
    rw [parse_u64_decimal]
    simp only [hlower, List.mem_cons, List.not_mem_nil, String.toList_inj, String.reduceEq,
      or_false, or_self, if_true, if_false]
    rfl

/-- The token of a kind sets the kind. -/
theorem fold_kind (value : Option PacketKind)
    (hkind : ∀ kind ∈ value, 1 ≤ kind.raw ∧ kind.raw ≤ 5) :
    ((filterTokens "kind" (value.map fun kind => kind.raw.toNat)).foldl considerToken
      parsed).query =
      { parsed.query with kind := value.or parsed.query.kind } := by
  rw [fold_filter (toList_ne_nil (by decide)) value _
    (fun query value => { query with kind := some value }) parsed]
  · cases value <;> rfl
  · intro given hgiven
    have hlower : lower "kind".toList = "kind".toList := by decide
    unfold applyToken
    dsimp only
    rw [parse_kind_decimal (hkind given hgiven).1 (hkind given hgiven).2]
    simp only [hlower, List.mem_cons, List.not_mem_nil, String.toList_inj, String.reduceEq,
      or_false, or_self, if_true, if_false]
    rfl

/-- The token of a least size sets the least size. -/
theorem fold_min_payload_size (value : Option UInt64) :
    ((filterTokens "min_payload_size" (value.map UInt64.toNat)).foldl considerToken parsed).query =
      { parsed.query with minPayloadSize := value.or parsed.query.minPayloadSize } := by
  rw [fold_filter (toList_ne_nil (by decide)) value UInt64.toNat
    (fun query value => { query with minPayloadSize := some value }) parsed]
  · cases value <;> rfl
  · intro given _
    have hlower : lower "min_payload_size".toList = "min_payload_size".toList := by decide
    unfold applyToken
    dsimp only
    rw [parse_size_decimal]
    simp only [hlower, List.mem_cons, List.not_mem_nil, String.toList_inj, String.reduceEq,
      or_false, or_self, or_true, if_true, if_false]
    rfl

/-- The token of a largest size sets the largest size. -/
theorem fold_max_payload_size (value : Option UInt64) :
    ((filterTokens "max_payload_size" (value.map UInt64.toNat)).foldl considerToken parsed).query =
      { parsed.query with maxPayloadSize := value.or parsed.query.maxPayloadSize } := by
  rw [fold_filter (toList_ne_nil (by decide)) value UInt64.toNat
    (fun query value => { query with maxPayloadSize := some value }) parsed]
  · cases value <;> rfl
  · intro given _
    have hlower : lower "max_payload_size".toList = "max_payload_size".toList := by decide
    unfold applyToken
    dsimp only
    rw [parse_size_decimal]
    simp only [hlower, List.mem_cons, List.not_mem_nil, String.toList_inj, String.reduceEq,
      or_false, or_self, or_true, if_true, if_false]
    rfl

/-- No limit is written as no filter. -/
theorem fold_limit (limit : UInt64) (hlimit : parsed.query.limit = 0) :
    ((filterTokens "limit" (if limit ≠ 0 then some limit.toNat else none)).foldl considerToken
      parsed).query = { parsed.query with limit } := by
  by_cases hzero : limit = 0
  · rw [if_neg (by rw [hzero]; exact fun h => h rfl), hzero, ← hlimit]
    rfl
  · rw [if_pos hzero]
    show (considerToken parsed ⟨"limit".toList, decimal limit.toNat⟩).query = _
    rw [consider_token (toList_ne_nil (by decide))]
    have hlower : lower "limit".toList = "limit".toList := by decide
    unfold applyToken
    dsimp only
    rw [parse_size_decimal]
    simp only [hlower, List.mem_cons, List.not_mem_nil, String.toList_inj, String.reduceEq,
      or_self, if_true, if_false]
    rfl

end Fields

/-- The check of the ranges leaves diagnostics only. -/
theorem validate_query_ranges_query (parsed : ParsedArchiveQuery) :
    (validateQueryRanges parsed).query = parsed.query := by
  unfold validateQueryRanges
  dsimp only
  repeat' split
  all_goals rfl

/-! ## The whole description -/

/-- The filters in the order of the description. -/
def describedFilters (query : ArchiveQuery) : List (String × Option Nat) :=
  [("start_time_ns", query.startTimeNs.map UInt64.toNat),
    ("end_time_ns", query.endTimeNs.map UInt64.toNat),
    ("device", query.device.map UInt64.toNat),
    ("kind", query.kind.map fun kind => kind.raw.toNat),
    ("min_payload_size", query.minPayloadSize.map UInt64.toNat),
    ("max_payload_size", query.maxPayloadSize.map UInt64.toNat),
    ("limit", if query.limit ≠ 0 then some query.limit.toNat else none)]

/-- A bound as it stands in a described query. -/
def filterText (filter : String × Option Nat) : Text :=
  (describeFilter filter.1 filter.2).toList

/-- A description is the word in front and the bounds behind it. -/
theorem describe_query_text (query : ArchiveQuery) :
    (describeQuery query).toList =
      "archive_query".toList ++ (describedFilters query).flatMap filterText := by
  unfold describeQuery describedFilters
  simp only [List.flatMap_cons, List.flatMap_nil, filterText]
  simp only [String.toList_append]
  simp only [List.append_assoc, List.append_nil]

/-- The names of the bounds are names. -/
theorem is_name_described {query : ArchiveQuery} :
    ∀ filter ∈ describedFilters query, IsName filter.1.toList := by
  intro filter hfilter
  simp only [describedFilters, List.mem_cons, List.not_mem_nil, or_false] at hfilter
  rcases hfilter with rfl | rfl | rfl | rfl | rfl | rfl | rfl
  all_goals
    dsimp only
    decide

/-- Described bounds are their tokens. -/
theorem tokenize_filters {filters : List (String × Option Nat)}
    (hnames : ∀ filter ∈ filters, IsName filter.1.toList) :
    EndsWord (filters.flatMap filterText) ∧
      tokenizeQuery (filters.flatMap filterText) =
        filters.flatMap fun filter => filterTokens filter.1 filter.2 := by
  induction filters with
  | nil => exact ⟨ends_word_nil, tokenize_of_none rfl⟩
  | cons filter filters ih =>
    have hname := hnames filter List.mem_cons_self
    obtain ⟨hrest, htokens⟩ := ih fun other h => hnames other (List.mem_cons_of_mem _ h)
    refine ⟨ends_word_filter hname filter.2 hrest, ?_⟩
    rw [List.flatMap_cons, List.flatMap_cons, ← htokens]
    exact tokenize_filter hname filter.2 hrest

/-- A description is the word in front and the tokens of the bounds. -/
theorem tokenize_description (query : ArchiveQuery) :
    tokenizeQuery (describeQuery query).toList =
      ⟨"archive_query".toList, []⟩ ::
        (describedFilters query).flatMap fun filter => filterTokens filter.1 filter.2 := by
  obtain ⟨hends, htokens⟩ := tokenize_filters (@is_name_described query)
  rw [describe_query_text, tokenize_word (by decide) hends, htokens]

/-- A described query is read back, the limit zero as no limit. -/
theorem parse_describe_query (query : ArchiveQuery)
    (hkind : ∀ kind ∈ query.kind, 1 ≤ kind.raw ∧ kind.raw ≤ 5) :
    (parseArchiveQuery (describeQuery query)).query = query := by
  have hlast : ∀ parsed : ParsedArchiveQuery, parsed.query = { query with limit := 0 } →
      ((filterTokens "limit" (if query.limit ≠ 0 then some query.limit.toNat else none)).foldl
        considerToken parsed).query = query := by
    intro parsed hparsed
    rw [fold_limit parsed query.limit (by rw [hparsed]), hparsed]
  have hword : ∀ tokens : List QueryToken,
      (considerToken { tokens } ⟨"archive_query".toList, []⟩).query = {} := fun _ => rfl
  unfold parseArchiveQuery
  dsimp only
  rw [validate_query_ranges_query, tokenize_description, List.foldl_cons]
  simp only [describedFilters, List.flatMap_cons, List.flatMap_nil, List.append_nil,
    List.foldl_append]
  apply hlast
  rw [fold_max_payload_size, fold_min_payload_size, fold_kind _ _ hkind, fold_device,
    fold_end_time, fold_start_time]
  simp only [hword, Option.or_none]

/-- A query for spectra is read back from its description. -/
theorem parse_describe_spectrum_query :
    (parseArchiveQuery (describeQuery
      { startTimeNs := some 100, device := some (2 ^ 64 - 1), kind := some PacketKind.spectrum,
        limit := 3 })).query =
      { startTimeNs := some 100, device := some (2 ^ 64 - 1), kind := some PacketKind.spectrum,
        limit := 3 } := by
  refine parse_describe_query _ ?_
  intro kind hkind
  cases hkind
  decide

end Aethon.Storage
