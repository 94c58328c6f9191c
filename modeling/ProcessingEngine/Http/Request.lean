import ProcessingEngine.Common.Text
import ProcessingEngine.Lib.HashMap
import ProcessingEngine.Lib.Lines
import Mathlib.Data.List.DropRight

/-!
# Requests as text

`http/request.rs`: a request is read line by line, the start line first, then the
headers up to an empty line, then the body.  What is read is well formed, and a well
formed request that is written with its headers in any order is read back
(`HttpRequest.parse_render`).
-/

namespace ProcessingEngine

open Lib Text

structure HttpRequest where
  method : String
  path : String
  version : String
  headers : HashMap String String
  body : Option String

namespace HttpRequest

/-- `str::lines` -/
def linesOf (s : String) : List String := (cutLines '\n' '\r' s.toList).map String.ofList

/-- `str::split_whitespace` -/
def splitWhitespace (s : String) : List String :=
  ((s.toList.splitOnP isWhitespace).filter fun piece => !piece.isEmpty).map String.ofList

/-- A line with a colon is a header, which replaces an earlier one of its name. -/
def insertHeader (headers : HashMap String String) (line : String) : HashMap String String :=
  match splitn2 ':' line with
  | (key, some val) => headers.insert (trim key) (trim val)
  | (_, none) => headers

/-- The headers, and the lines after the first empty one. -/
def parseHeaders : List String → HashMap String String → HashMap String String × List String
  | [], headers => (headers, [])
  | line :: rest, headers =>
      if line = "" then (headers, rest) else parseHeaders rest (insertHeader headers line)

def parse (raw : String) : Option HttpRequest :=
  match linesOf raw with
  | [] => none
  | startLine :: rest =>
      match splitWhitespace startLine with
      | method :: path :: version :: _ =>
          let (headers, bodyLines) := parseHeaders rest ∅
          let body := "\n".intercalate bodyLines
          some { method, path, version, headers, body := if body = "" then none else some body }
      | _ => none

/-! ### Well formed requests -/

def Trimmed (s : String) : Prop := trim s = s

/-- A word of a start line. -/
structure Word (s : String) : Prop where
  nonempty : s ≠ ""
  solid : ∀ c ∈ s.toList, isWhitespace c = false

structure Header (key value : String) : Prop where
  keyTrimmed : Trimmed key
  noColon : ':' ∉ key.toList
  keyLine : '\n' ∉ key.toList
  valueTrimmed : Trimmed value
  valueLine : '\n' ∉ value.toList

structure WellFormed (r : HttpRequest) : Prop where
  method : Word r.method
  path : Word r.path
  version : Word r.version
  headers : ∀ key value, r.headers.lookup key = some value → Header key value
  body : r.body ≠ some ""

/-- The same up to the order of the headers. -/
structure Same (r r' : HttpRequest) : Prop where
  method : r.method = r'.method
  path : r.path = r'.path
  version : r.version = r'.version
  headers : ∀ key, r.headers.lookup key = r'.headers.lookup key
  body : r.body = r'.body

def headerLine (r : HttpRequest) (key : String) : String :=
  key ++ String.ofList [':'] ++ (" " ++ (r.headers.lookup key).getD "")

def bodyLines (r : HttpRequest) : List String :=
  match r.body with
  | none => []
  | some body => split '\n' body

/-- The lines of a request, with the headers in the given order. -/
def toLines (order : HashOrder String) (r : HttpRequest) : List String :=
  (r.method ++ " " ++ r.path ++ " " ++ r.version) ::
    ((order.keys r.headers.keys).map r.headerLine ++ "" :: r.bodyLines)

def render (order : HashOrder String) (r : HttpRequest) : String :=
  String.ofList (joinLines '\n' '\r' ((r.toLines order).map String.toList))

/-! ### Trimmed texts -/

theorem toList_trim (s : String) :
    (trim s).toList = (s.toList.dropWhile isWhitespace).rdropWhile isWhitespace := by
  rw [trim, String.toList_ofList]
  rfl

theorem Trimmed.start {s : String} (h : Trimmed s) :
    s.toList.dropWhile isWhitespace = s.toList := by
  have hlist := congrArg String.toList h
  rw [toList_trim] at hlist
  have hprefix := List.rdropWhile_prefix isWhitespace (s.toList.dropWhile isWhitespace)
  have hlength := hprefix.length_le
  rw [hlist] at hlength
  exact (List.dropWhile_suffix isWhitespace).eq_of_length_le hlength

theorem Trimmed.stop {s : String} (h : Trimmed s) :
    s.toList.rdropWhile isWhitespace = s.toList := by
  have hlist := congrArg String.toList h
  rwa [toList_trim, h.start] at hlist

theorem trimmed_trim (s : String) : Trimmed (trim s) := by
  rw [Trimmed, ← String.toList_inj, toList_trim, toList_trim]
  have hstart : ((s.toList.dropWhile isWhitespace).rdropWhile isWhitespace).dropWhile
      isWhitespace = (s.toList.dropWhile isWhitespace).rdropWhile isWhitespace := by
    rw [List.dropWhile_eq_self_iff]
    intro hlength
    have hprefix := List.rdropWhile_prefix isWhitespace (s.toList.dropWhile isWhitespace)
    rw [List.IsPrefix.getElem hprefix]
    exact List.dropWhile_get_zero_not _ _ (hlength.trans_le hprefix.length_le)
  rw [hstart, List.rdropWhile_idempotent]

/-- A blank in front is trimmed. -/
theorem trim_blank {s : String} (h : Trimmed s) : trim (" " ++ s) = s := by
  rw [← String.toList_inj, toList_trim, String.toList_append]
  show ((' ' :: s.toList).dropWhile isWhitespace).rdropWhile isWhitespace = _
  rw [List.dropWhile_cons_of_pos (by decide), h.start, h.stop]

theorem mem_of_mem_trim {s : String} {c : Char} (h : c ∈ (trim s).toList) : c ∈ s.toList := by
  rw [toList_trim] at h
  exact (List.dropWhile_suffix _).subset ((List.rdropWhile_prefix _ _).subset h)

/-! ### What is read is well formed -/

theorem newline_notMem_linesOf {s line : String} (h : line ∈ linesOf s) :
    '\n' ∉ line.toList := by
  obtain ⟨l, hl, rfl⟩ := List.mem_map.mp h
  rw [String.toList_ofList]
  exact notMem_of_mem_cutLines hl

theorem word_of_mem_splitWhitespace {s w : String} (h : w ∈ splitWhitespace s) : Word w := by
  obtain ⟨piece, hpiece, rfl⟩ := List.mem_map.mp h
  obtain ⟨hmem, hne⟩ := List.mem_filter.mp hpiece
  refine ⟨fun hempty => ?_, ?_⟩
  · rw [← String.toList_inj, String.toList_ofList] at hempty
    rw [hempty] at hne
    cases hne
  · rw [String.toList_ofList]
    exact eq_false_of_mem_splitOnP isWhitespace hmem

/-- The parts of a line around its first colon. -/
theorem splitn2_parts {sep : Char} {s key value : String} (h : splitn2 sep s = (key, some value)) :
    sep ∉ key.toList ∧ (∀ c ∈ key.toList, c ∈ s.toList) ∧ ∀ c ∈ value.toList, c ∈ s.toList := by
  rw [splitn2, Prod.mk.injEq] at h
  obtain ⟨rfl, hvalue⟩ := h
  rw [String.toList_ofList]
  refine ⟨fun hmem => ?_, fun c hc => (List.takeWhile_prefix _).subset hc, fun c hc => ?_⟩
  · have hsep := List.mem_takeWhile_imp hmem
    simp at hsep
  · cases hrest : s.toList.dropWhile (· ≠ sep) with
    | nil =>
        rw [hrest] at hvalue
        cases hvalue
    | cons d rest =>
        rw [hrest] at hvalue
        obtain rfl := Option.some.inj hvalue
        rw [String.toList_ofList] at hc
        refine (List.dropWhile_suffix (· ≠ sep)).subset ?_
        rw [hrest]
        exact List.mem_cons_of_mem d hc

theorem header_insertHeader {headers : HashMap String String} {line : String}
    (hline : '\n' ∉ line.toList)
    (h : ∀ key value, headers.lookup key = some value → Header key value) :
    ∀ key value, (insertHeader headers line).lookup key = some value → Header key value := by
  intro key value hlookup
  rw [insertHeader] at hlookup
  rcases hsplit : splitn2 ':' line with ⟨name, _ | text⟩
  · rw [hsplit] at hlookup
    exact h key value hlookup
  · rw [hsplit] at hlookup
    rcases HashMap.cases_lookup_insert hlookup with ⟨rfl, rfl⟩ | ⟨-, hold⟩
    · obtain ⟨hcolon, hname, htext⟩ := splitn2_parts hsplit
      exact ⟨trimmed_trim name, fun hmem => hcolon (mem_of_mem_trim hmem),
        fun hmem => hline (hname _ (mem_of_mem_trim hmem)), trimmed_trim text,
        fun hmem => hline (htext _ (mem_of_mem_trim hmem))⟩
    · exact h key value hold

theorem header_parseHeaders {ls : List String} {headers : HashMap String String}
    (hlines : ∀ line ∈ ls, '\n' ∉ line.toList)
    (h : ∀ key value, headers.lookup key = some value → Header key value) :
    ∀ key value, (parseHeaders ls headers).1.lookup key = some value → Header key value := by
  induction ls generalizing headers with
  | nil => exact h
  | cons line rest ih =>
      rw [List.forall_mem_cons] at hlines
      rw [parseHeaders]
      split_ifs
      · exact h
      · exact ih hlines.2 (header_insertHeader hlines.1 h)

theorem parse_wellFormed {raw : String} {r : HttpRequest} (h : parse raw = some r) :
    r.WellFormed := by
  rw [parse] at h
  cases hlines : linesOf raw with
  | nil =>
      rw [hlines] at h
      cases h
  | cons startLine rest =>
      rw [hlines] at h
      dsimp only at h
      have hrest : ∀ line ∈ rest, '\n' ∉ line.toList := fun line hline =>
        newline_notMem_linesOf (hlines ▸ List.mem_cons_of_mem startLine hline)
      split at h
      · next method path version more hwords =>
          obtain rfl := Option.some.inj h
          have hword : ∀ w ∈ [method, path, version], Word w := by
            intro w hw
            refine word_of_mem_splitWhitespace (s := startLine) ?_
            rw [hwords]
            exact List.mem_append_left more hw
          refine ⟨hword _ (by simp), hword _ (by simp), hword _ (by simp),
            header_parseHeaders hrest fun key value hempty => ?_, ?_⟩
          · cases hempty
          · show (if _ then none else _) ≠ some ""
            split_ifs with hempty
            · nofun
            · exact fun heq => hempty (Option.some.inj heq)
      · cases h

/-! ### What is written is read back -/

theorem Word.newline {s : String} (h : Word s) : '\n' ∉ s.toList := by
  intro hmem
  have hsolid := h.solid _ hmem
  cases hsolid

theorem splitWhitespace_startLine {method path version : String} (hmethod : Word method)
    (hpath : Word path) (hversion : Word version) :
    splitWhitespace (method ++ " " ++ path ++ " " ++ version) = [method, path, version] := by
  have hnonempty : ∀ {s : String}, Word s → (!s.toList.isEmpty) = true := by
    intro s hs
    cases hlist : s.toList with
    | nil => exact absurd (String.toList_eq_nil_iff.mp hlist) hs.nonempty
    | cons c cs => rfl
  have htext : (method ++ " " ++ path ++ " " ++ version).toList =
      method.toList ++ ' ' :: (path.toList ++ ' ' :: version.toList) := by
    simp [String.toList_append]
  rw [splitWhitespace, htext,
    List.splitOnP_append_cons_of_forall_mem hmethod.solid ' ' (by decide),
    List.splitOnP_append_cons_of_forall_mem hpath.solid ' ' (by decide),
    List.splitOnP_eq_singleton hversion.solid]
  simp [hnonempty hmethod, hnonempty hpath, hnonempty hversion]

variable {r : HttpRequest}

theorem insertHeader_headerLine (h : r.WellFormed) {key value : String}
    (hlookup : r.headers.lookup key = some value) (headers : HashMap String String) :
    insertHeader headers (r.headerLine key) = headers.insert key value := by
  have hheader := h.headers key value hlookup
  have hkey : trim key = key := hheader.keyTrimmed
  rw [headerLine, hlookup, Option.getD_some, insertHeader, splitn2_append hheader.noColon]
  dsimp only
  rw [hkey, trim_blank hheader.valueTrimmed]

/-- The headers are read in the order in which they were written. -/
theorem parseHeaders_headerLines (h : r.WellFormed) {keys : List String}
    (hkeys : ∀ key ∈ keys, key ∈ r.headers.keys) (rest : List String)
    (headers : HashMap String String) :
    parseHeaders (keys.map r.headerLine ++ "" :: rest) headers =
      (keys.foldl (fun m key => m.insert key ((r.headers.lookup key).getD "")) headers, rest) := by
  induction keys generalizing headers with
  | nil => rw [List.map_nil, List.nil_append, parseHeaders, if_pos rfl, List.foldl_nil]
  | cons key keys ih =>
      rw [List.forall_mem_cons] at hkeys
      obtain ⟨value, hlookup⟩ := Option.isSome_iff_exists.mp
        (AList.lookup_isSome.mpr (AList.mem_keys.mpr hkeys.1))
      have hne : r.headerLine key ≠ "" := by
        intro hempty
        have hlist := congrArg String.toList hempty
        simp [headerLine, String.toList_append] at hlist
      rw [List.map_cons, List.cons_append, parseHeaders, if_neg hne,
        insertHeader_headerLine h hlookup, ih hkeys.2, List.foldl_cons, hlookup, Option.getD_some]

theorem newline_notMem_toLines (h : r.WellFormed) (order : HashOrder String) :
    ∀ line ∈ r.toLines order, '\n' ∉ line.toList := by
  intro line hline
  rcases List.mem_cons.mp hline with rfl | hline
  · have hblank : '\n' ∉ (" " : String).toList := by decide
    simp only [String.toList_append, List.mem_append, not_or]
    exact ⟨⟨⟨⟨h.method.newline, hblank⟩, h.path.newline⟩, hblank⟩, h.version.newline⟩
  rcases List.mem_append.mp hline with hline | hline
  · obtain ⟨key, hkey, rfl⟩ := List.mem_map.mp hline
    rw [(order.perm _).mem_iff] at hkey
    obtain ⟨value, hlookup⟩ := Option.isSome_iff_exists.mp
      (AList.lookup_isSome.mpr (AList.mem_keys.mpr hkey))
    have hheader := h.headers key value hlookup
    have hcolon : '\n' ∉ (String.ofList [':']).toList := by decide
    have hblank : '\n' ∉ (" " : String).toList := by decide
    rw [headerLine, hlookup, Option.getD_some]
    simp only [String.toList_append, List.mem_append, not_or]
    exact ⟨⟨hheader.keyLine, hcolon⟩, hblank, hheader.valueLine⟩
  rcases List.mem_cons.mp hline with rfl | hline
  · exact List.not_mem_nil
  · rw [bodyLines] at hline
    cases hbody : r.body with
    | none =>
        rw [hbody] at hline
        cases hline
    | some body =>
        rw [hbody] at hline
        obtain ⟨piece, hpiece, rfl⟩ := List.mem_map.mp hline
        rw [List.splitOn_eq_splitOnP] at hpiece
        rw [String.toList_ofList]
        intro hmem
        have hfalse := eq_false_of_mem_splitOnP _ hpiece _ hmem
        cases hfalse

theorem linesOf_render (h : r.WellFormed) (order : HashOrder String) :
    linesOf (r.render order) = r.toLines order := by
  rw [linesOf, render, String.toList_ofList, cutLines_joinLines (by decide)]
  · rw [List.map_map]
    exact (List.map_congr_left fun s _ => String.ofList_toList).trans (List.map_id _)
  · intro l hl
    obtain ⟨line, hline, rfl⟩ := List.mem_map.mp hl
    exact newline_notMem_toLines h order line hline

theorem intercalate_bodyLines (h : r.WellFormed) :
    (if "\n".intercalate r.bodyLines = "" then none else some ("\n".intercalate r.bodyLines)) =
      r.body := by
  rw [bodyLines]
  cases hbody : r.body with
  | none => rfl
  | some body =>
      have hjoin : "\n".intercalate (split '\n' body) = body := by
        rw [← String.toList_inj, String.toList_intercalate, split, List.map_map]
        have hpieces : (body.toList.splitOn '\n').map (String.toList ∘ String.ofList) =
            body.toList.splitOn '\n' :=
          (List.map_congr_left fun l _ => String.toList_ofList).trans (List.map_id _)
        rw [hpieces]
        exact List.intercalate_splitOn '\n'
      have hne : body ≠ "" := fun hempty => h.body (hbody.trans (congrArg some hempty))
      dsimp only
      rw [hjoin, if_neg hne]

/-- A well formed request is read back, in whatever order its headers are written. -/
theorem WellFormed.parse_rendered (h : r.WellFormed) (order : HashOrder String) :
    ∃ parsed, parse (r.render order) = some parsed ∧ parsed.Same r := by
  have hkeys : ∀ key ∈ order.keys r.headers.keys, key ∈ r.headers.keys :=
    fun key => (order.perm _).mem_iff.mp
  rw [parse, linesOf_render h, toLines]
  dsimp only
  rw [splitWhitespace_startLine h.method h.path h.version]
  dsimp only
  rw [parseHeaders_headerLines h hkeys]
  refine ⟨_, rfl, rfl, rfl, rfl, fun key => ?_, intercalate_bodyLines h⟩
  have hnodup : ((order.keys r.headers.keys).map id).Nodup := by
    rw [List.map_id]
    exact (order.perm _).nodup_iff.mpr r.headers.nodupKeys
  refine Option.ext fun value => ?_
  refine (HashMap.lookup_foldl_insert id (fun key => (r.headers.lookup key).getD "")
    hnodup).trans ?_
  rw [List.map_id]
  constructor
  · rintro (⟨key', hkey', rfl, rfl⟩ | ⟨-, hempty⟩)
    · obtain ⟨value, hlookup⟩ := Option.isSome_iff_exists.mp
        (AList.lookup_isSome.mpr (AList.mem_keys.mpr (hkeys key' hkey')))
      show r.headers.lookup key' = _
      rw [hlookup, Option.getD_some]
    · cases hempty
  · intro hlookup
    refine Or.inl ⟨key, (order.perm _).mem_iff.mpr ?_, rfl, by rw [hlookup]; rfl⟩
    exact AList.mem_keys.mp (AList.lookup_isSome.mp (by rw [hlookup]; rfl))

/-- Every request that is read is well formed, and every well formed request can be
written so that it is read. -/
theorem parse_render :
    (∀ raw r, parse raw = some r → r.WellFormed) ∧
      ∀ r : HttpRequest, r.WellFormed → ∀ order,
        ∃ parsed, parse (r.render order) = some parsed ∧ parsed.Same r :=
  ⟨fun _ _ h => parse_wellFormed h, fun _ h order => h.parse_rendered order⟩

def healthText : String := "GET /health HTTP/1.1\r\nHost: localhost\r\n\r\n"

theorem parse_render_healthText :
    ∃ r parsed, parse healthText = some r ∧ r.method = "GET" ∧ r.path = "/health" ∧
      parse (r.render .reversed) = some parsed ∧ parsed.Same r := by
  have hstart : (parse healthText).map (fun r => (r.method, r.path)) = some ("GET", "/health") := by
    decide +kernel
  obtain ⟨r, hread, hsame⟩ := Option.map_eq_some_iff.mp hstart
  rw [Prod.mk.injEq] at hsame
  obtain ⟨hwrite, hback⟩ := parse_render
  obtain ⟨parsed, hparsed⟩ := hback r (hwrite healthText r hread) .reversed
  exact ⟨r, parsed, hread, hsame.1, hsame.2, hparsed⟩

end HttpRequest
end ProcessingEngine
