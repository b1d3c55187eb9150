import Ccybe.Url.Decoder

/-!
# Path and queries of a URL (`url/url.c`)
-/

namespace Ccybe

open CSem

/-- `pair_t`; `header_t` has the same fields. -/
structure PairT where
  key : Block
  value : Block
  deriving DecidableEq

/-- `url_t`. -/
structure UrlT where
  path : Block
  queries : List (Option PairT)
  queryCount : Int
  pathLen : Int
  deriving DecidableEq

/-- A character array of which all bytes are zero. -/
def zeros (size : ℕ) : Block := List.replicate size (some 0)

@[simp] lemma length_zeros (size : ℕ) : (zeros size).length = size := List.length_replicate

@[simp] lemma drop_zeros (size k : ℕ) : (zeros size).drop k = zeros (size - k) := List.drop_replicate

/-- Behind a text that does not fill such an array there is a zero byte. -/
lemma hasString_zeros {text : Bytes} (hnul : (0 : UInt8) ∉ text) {room : ℕ} (h : 0 < room) :
    HasString (text.map some ++ zeros room) text := by
  obtain ⟨room, rfl⟩ := Nat.exists_eq_add_one_of_ne_zero h.ne'
  exact ⟨hnul, zeros room, by simp [terminated, zeros, List.replicate_succ]⟩

def PairT.zero : PairT := ⟨zeros 128, zeros 128⟩

/-- `init_url`. -/
def initUrl : UrlT := ⟨zeros 256, List.replicate 10 (some .zero), 0, 0⟩

namespace UrlT

/-- `url->path[url->path_len] = c`. -/
def storePath (url : UrlT) (c : UInt8) : Eval UrlT := do
  let path ← set url.path url.pathLen c
  pure { url with path := path }

/-- `url->queries[url->query_count].key[j] = c`. -/
def storeKey (url : UrlT) (j : Int) (c : UInt8) : Eval UrlT := do
  let pair ← get url.queries url.queryCount
  let key ← set pair.key j c
  let queries ← set url.queries url.queryCount { pair with key := key }
  pure { url with queries := queries }

/-- `url->queries[url->query_count].value[j] = c`. -/
def storeValue (url : UrlT) (j : Int) (c : UInt8) : Eval UrlT := do
  let pair ← get url.queries url.queryCount
  let value ← set pair.value j c
  let queries ← set url.queries url.queryCount { pair with value := value }
  pure { url with queries := queries }

/-- `url->query_count++`. -/
def nextQuery (url : UrlT) : Eval UrlT := do
  let count ← add url.queryCount 1
  pure { url with queryCount := count }

/-- `url->path_len++`. -/
def nextPath (url : UrlT) : Eval UrlT := do
  let len ← add url.pathLen 1
  pure { url with pathLen := len }

end UrlT

/-- The variables of the loop in `seperate_query`. -/
structure QueryScan where
  url : UrlT
  found : Bool
  queryName : Bool
  j : Int

namespace QueryScan

/-- The body of the loop on the character `c`. -/
def pass (s : QueryScan) (c : UInt8) : Eval QueryScan := do
  if s.found then
    if c = chr '&' then
      let url ← s.url.storeValue s.j 0
      let url ← url.nextQuery
      pure { s with url := url, j := 0, queryName := true }
    else if c = chr '=' then
      let url ← s.url.storeKey s.j 0
      pure { s with url := url, j := 0, queryName := false }
    else
      let url ← if s.queryName then s.url.storeKey s.j c else s.url.storeValue s.j c
      let j ← add s.j 1
      pure { s with url := url, j := j }
  else if c = chr '?' then pure { s with found := true }
  else
    let url ← s.url.storePath c
    let url ← url.nextPath
    pure { s with url := url }

end QueryScan

/-- `seperate_query`: the result and what `url` holds then. -/
def seperateQuery (rawPath : Block) : Eval (Int × UrlT) := do
  let url := initUrl
  let n ← strlen rawPath
  let decoded ← decodeUrl rawPath (List.replicate (n + 1) none)
  if decoded.1 ≠ 0 then pure (1, url)
  else
    let decPath ← readString decoded.2
    let s ← decPath.foldlM QueryScan.pass ⟨url, false, true, 0⟩
    let url ← s.url.storePath 0
    if s.found then
      let url ← url.storeValue s.j 0
      let url ← url.nextQuery
      pure (0, url)
    else pure (0, url)

end Ccybe
