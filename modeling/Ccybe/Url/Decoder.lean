import Ccybe.Lib.CString

/-!
# Decoding of URLs (`url/decoder.c`)
-/

namespace Ccybe

open CSem

/-- `get_2_char`: the character that `%2x` stands for. -/
def get2Char (x : UInt8) : UInt8 :=
  if x = chr '0' then chr ' '
  else if x = chr '2' then 34    -- the double quote
  else if x = chr '3' then chr '#'
  else if x = chr '5' then chr '%'
  else if x = chr '7' then 39    -- the single quote
  else if x = chr 'B' then chr '+'
  else if x = chr 'F' then chr '/'
  else 0

/-- `get_3_char`: the character that `%3x` stands for. -/
def get3Char (x : UInt8) : UInt8 :=
  if x = chr 'A' then chr ':'
  else if x = chr 'B' then chr ';'
  else if x = chr 'C' then chr '<'
  else if x = chr 'D' then chr '='
  else if x = chr 'E' then chr '>'
  else if x = chr 'F' then chr '?'
  else 0

/-- The loop of `decode_url` from `i` on, with at most `passes` passes. -/
def decodeFrom (url : Block) (n : Int) :
    ℕ → Int → Int → Block → Eval (Int × Block)
  | 0, i, len, decUrl => do
    if i < n then .error .passes
    else
      let decUrl ← set decUrl len 0
      pure (0, decUrl)
  | passes + 1, i, len, decUrl => do
    if i < n then
      let c ← get url i
      let last ← sub n 3
      let next ← add len 1
      if c = chr '%' ∧ i < last then
        let kind ← get url (i + 1)
        let code ← get url (i + 2)
        if kind = chr '2' then
          let x := get2Char code
          if x = 0 then pure (-1, decUrl)
          else
            let decUrl ← set decUrl len x
            decodeFrom url n passes (i + 3) next decUrl
        else if kind = chr '3' then
          let x := get3Char code
          if x = 0 then pure (-1, decUrl)
          else
            let decUrl ← set decUrl len x
            decodeFrom url n passes (i + 3) next decUrl
        else pure (-1, decUrl)
      else
        let decUrl ← set decUrl len c
        decodeFrom url n passes (i + 1) next decUrl
    else
      let decUrl ← set decUrl len 0
      pure (0, decUrl)

/-- `decode_url`: the result and what `dec_url` holds then. Each pass moves `i`, so that there
are no more passes than characters. -/
def decodeUrl (url decUrl : Block) : Eval (Int × Block) := do
  let n ← strlen url
  decodeFrom url (toInt n) n 0 0 decUrl

end Ccybe
