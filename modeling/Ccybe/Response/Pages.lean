import Ccybe.Response.Basic

/-!
# The pages of the server (`main.c`)
-/

namespace Ccybe

open CSem

/-- What the pages do from `WRITE_HEADER` on. -/
def writeHeader (r : HttpResponse) : Eval HttpResponse := do
  let length ← lengthText r
  let r ← setHeader r (terminated (ascii "Content-Length".toList)) length
  let r ← setText r "Content-Type".toList "text/plain".toList
  let r ← setText r "X-Hackerone-Id".toList "0xfaisal".toList
  setText r "Connection".toList "close".toList

/-- `home_page`; the string that was appended to becomes the body. -/
def homePage (r : HttpResponse) (req : HttpRequest) (mem : ℕ → Bool) : Eval HttpResponse := do
  let temp ← StringT.newString (some (terminated (ascii "Path=".toList))) (mem 0)
  let (ok, temp) ← temp.appendStringCstr (some req.rawPath) (mem 1)
  if !ok then writeHeader { r with statusCode := 500 }
  else writeHeader { r with body := temp, statusCode := 200 }

/-- `api_home_page`; the body is a copy. -/
def apiHomePage (r : HttpResponse) (req : HttpRequest) (mem : ℕ → Bool) : Eval HttpResponse := do
  let temp ← StringT.newString (some (terminated (ascii "Path=".toList))) (mem 0)
  let (ok, temp) ← temp.appendStringCstr (some req.rawPath) (mem 1)
  if !ok then writeHeader { r with statusCode := 500 }
  else do
    let body ← temp.copyString (mem 2)
    writeHeader { r with body := body, statusCode := 200 }

end Ccybe
