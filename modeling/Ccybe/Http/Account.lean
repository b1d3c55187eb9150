import Ccybe.Http.Answer
import Ccybe.Response.Heap

/-!
# The blocks of a request

What `read_from_client` allocates for a READ event, and what `handle_conn` makes of it. The blocks of
structures are empty here; what is in them is passed on as values.
-/

namespace Ccybe

open CSem

/-! ### Reading -/

/-- The result of `recv` that is no data. -/
inductive RecvEnd where
  | again
  | failed
  | closed
  deriving DecidableEq

/-- Whether there is memory for the allocations of `read_from_client` but those for data. -/
structure ReadMem where
  buf : Bool
  tnode : Bool
  buffer : Bool
  req : Bool
  resp : Bool

/-- The addresses in `thread_node_t`, and its own. -/
structure NodeVar where
  addr : ℕ
  buffer : StringVar
  req : ℕ
  resp : ℕ

/-- The node has this buffer, and these are its blocks. -/
def NodeVar.Stands (node : NodeVar) (buffer : StringT) (m : Owned UInt8) : Prop :=
  ∃ mb, node.buffer.Stands buffer mb ∧
    m = {(node.resp, [])} + {(node.req, [])} + {(node.addr, [])} + mb

/-- The loop of `read_from_client` up to the end of the data: the chunks, each with the memory for it. -/
def appendChunks (buf : StringT) : List (Bytes × Bool) → Eval (Bool × StringT)
  | [] => pure (true, buf)
  | (chunk, mem) :: chunks => do
    let (ok, buf) ← buf.appendStringCstr (some (terminated chunk)) mem
    if !ok then pure (false, buf) else appendChunks buf chunks

/-- `read_from_client` after the loop: the buffer of the node, if there is one. -/
def makeNode (buf : StringT) (mem : ReadMem) : Eval (Option StringT) :=
  if !mem.tnode then pure none
  else do
    let buffer ← buf.copyString mem.buffer
    if buffer.data.isNone || !mem.req || !mem.resp then pure none else pure (some buffer)

/-- `read_from_client`; where `recv` returns no data the loop is over, or the function. -/
def readFromClient (chunks : List (Bytes × Bool)) (last : RecvEnd) (mem : ReadMem) :
    Eval (Option StringT) := do
  let buf ← StringT.newString (some (terminated [])) mem.buf
  let (ok, buf) ← appendChunks buf chunks
  if !ok then pure none
  else match last with
    | .failed | .closed => pure none
    | .again => makeNode buf mem

namespace OnHeap

def appendChunks (buf : StringVar) : List (Bytes × Bool) → OnHeap UInt8 (Bool × StringVar)
  | [] => pure (true, buf)
  | (chunk, mem) :: chunks => do
    let (ok, buf) ← appendStringCstr buf (some (terminated chunk)) mem
    if !ok then pure (false, buf) else appendChunks buf chunks

/-- `read_from_client` after the loop. -/
def makeNode (buf : StringVar) (mem : ReadMem) : OnHeap UInt8 (Option NodeVar) :=
  if !mem.tnode then do
    freeString buf
    pure none
  else do
    let addr ← OnHeap.alloc []
    let buffer ← copyString buf mem.buffer
    if buffer.data.isNone then do
      OnHeap.free addr
      freeString buf
      pure none
    else if !mem.req then do
      freeString buf
      freeString buffer
      OnHeap.free addr
      pure none
    else do
      let req ← OnHeap.alloc []
      if !mem.resp then do
        freeString buf
        freeString buffer
        OnHeap.free req
        OnHeap.free addr
        pure none
      else do
        let resp ← OnHeap.alloc []
        freeString buf    -- after `push_task`
        pure (some ⟨addr, buffer, req, resp⟩)

/-- `read_from_client`. -/
def readFromClient (chunks : List (Bytes × Bool)) (last : RecvEnd) (mem : ReadMem) :
    OnHeap UInt8 (Option NodeVar) := do
  let buf ← newString (some (terminated [])) mem.buf
  let (ok, buf) ← appendChunks buf chunks
  if !ok then do
    freeString buf
    pure none
  else match last with
    | .failed | .closed => pure none
    | .again => makeNode buf mem

end OnHeap

/-- Where the peer closes or `recv` fails after all data was appended, the buffer is not freed. -/
def readLeft (chunks : List (Bytes × Bool)) (last : RecvEnd) (mem : ReadMem) : ℕ :=
  if last ≠ .again ∧ mem.buf ∧ ∀ chunk ∈ chunks, chunk.2 then 1 else 0

/-- There is a node with its blocks, or there is none and `left` blocks. -/
def ReadTo (left : ℕ) : Option NodeVar → Option StringT → Owned UInt8 → Prop
  | some node, some buffer, m => node.Stands buffer m ∧ buffer.data ≠ none
  | none, none, m => Multiset.card m = left
  | _, _, _ => False

section Read

variable {m : Owned UInt8} {v : StringVar} {s : StringT}

/-- Everything is appended to a string with data if and only if there is memory for it. -/
lemma StringVar.Stands.appendChunks (hv : v.Stands s m) (chunks : List (Bytes × Bool)) :
    Refines m (OnHeap.appendChunks v chunks) (appendChunks s chunks) fun r c m' =>
      r.1 = c.1 ∧ r.2.Stands c.2 m' ∧ (s.data ≠ none → c.2.data ≠ none) ∧ (s.data = none → c.2.data = none) ∧
        (s.data ≠ none → (c.1 = true ↔ ∀ chunk ∈ chunks, chunk.2 = true)) := by
  induction chunks generalizing v s m with
  | nil => exact refines_pure ⟨rfl, hv, fun h => h, fun h => h, fun _ => by simp⟩
  | cons chunk chunks ih =>
    obtain ⟨chunk, mem⟩ := chunk
    refine (hv.appendStringCstr _ mem).bind ?_
    rintro ⟨ok, v'⟩ ⟨ok', s'⟩ m' happ ⟨rfl, hv'⟩
    rcases StringT.appendStringCstr_result happ with ⟨rfl, rfl⟩ | ⟨rfl, hs, hs'⟩
    · refine refines_pure ⟨rfl, hv', fun h => h, fun h => h, fun hs => iff_of_false Bool.false_ne_true ?_⟩
      intro hall
      have hmem : mem = true := hall _ List.mem_cons_self
      rw [hmem] at happ
      exact Bool.false_ne_true (StringT.appendStringCstr_true happ hs)
    · refine (ih hv').mono fun r c m'' _ hr => ?_
      obtain ⟨hok, hstands, hdata, -, hall⟩ := hr
      refine ⟨hok, hstands, fun _ => hdata hs', fun hnone => absurd hnone hs, fun _ => ?_⟩
      have hmem : mem = true := by
        by_contra hfalse
        rw [Bool.not_eq_true] at hfalse
        rw [hfalse] at happ
        cases StringT.appendStringCstr_false happ
      rw [hall hs', List.forall_mem_cons, and_iff_right hmem]

lemma refines_none {k : Owned UInt8} (h : k = 0) : Refines k (pure none) (pure none) (ReadTo 0) := by
  rw [h]
  exact refines_pure Multiset.card_zero

/-- After the loop nothing is left but what belongs to the node. -/
lemma StringVar.Stands.makeNode (hv : v.Stands s m) (mem : ReadMem) :
    Refines m (OnHeap.makeNode v mem) (makeNode s mem) (ReadTo 0) := by
  obtain ⟨memBuf, memTnode, memBuffer, memReq, memResp⟩ := mem
  cases memTnode with
  | false => exact hv.freed (refines_none rfl)
  | true =>
    refine (refines_alloc []).bind_left fun addr m' hm' => ?_
    rw [hm', Multiset.add_comm]
    refine ((hv.copyString memBuffer).frame _).bind fun buffer s' m' hcopy hcopied => ?_
    obtain ⟨-, rfl, mb, hb, rfl⟩ := hcopied
    cases hdata : s'.data with
    | none =>
      simp only [hb.data_isNone, hdata, Option.isNone_none, Bool.true_or, if_true]
      rw [show mb + m + {(addr, [])} = {(addr, [])} + (m + mb) by abel]
      refine refines_free.bind_left fun _ m' hfree => ?_
      rw [hfree]
      refine (hv.freeString mb).bind_left fun _ m' hfree => ?_
      rw [hfree]
      exact refines_none (hb.eq_zero hdata)
    | some data =>
      simp only [hb.data_isNone, hdata, Option.isNone_some, Bool.false_or]
      cases memReq with
      | false =>
        simp only [Bool.not_false, Bool.true_or, if_true, Bool.false_eq_true, if_false]
        rw [show mb + m + {(addr, [])} = m + (mb + {(addr, [])}) by abel]
        refine (hv.freeString _).bind_left fun _ m' hfree => ?_
        rw [hfree]
        refine (hb.freeString _).bind_left fun _ m' hfree => ?_
        rw [hfree, ← Multiset.add_zero {(addr, [])}]
        refine refines_free.bind_left fun _ m' hfree => ?_
        exact refines_none hfree
      | true =>
        refine (refines_alloc []).bind_left fun req m' hm' => ?_
        rw [hm']
        cases memResp with
        | false =>
          simp only [Bool.not_true, Bool.not_false, Bool.or_true, if_true]
          rw [show {(req, [])} + (mb + m + {(addr, [])}) = m + (mb + ({(req, [])} + {(addr, [])})) by abel]
          refine (hv.freeString _).bind_left fun _ m' hfree => ?_
          rw [hfree]
          refine (hb.freeString _).bind_left fun _ m' hfree => ?_
          rw [hfree]
          refine refines_free.bind_left fun _ m' hfree => ?_
          rw [hfree, ← Multiset.add_zero {(addr, [])}]
          refine refines_free.bind_left fun _ m' hfree => ?_
          exact refines_none hfree
        | true =>
          refine (refines_alloc []).bind_left fun resp m' hm' => ?_
          rw [hm', show {(resp, [])} + ({(req, [])} + (mb + m + {(addr, [])})) =
            m + ({(resp, [])} + {(req, [])} + {(addr, [])} + mb) by abel]
          refine (hv.freeString _).bind_left fun _ m' hfree => ?_
          rw [hfree]
          exact refines_pure ⟨⟨mb, hb, rfl⟩, hdata ▸ Option.some_ne_none _⟩

/-- In `read_from_client` a block is left only where `readLeft` says so, or it belongs to the node. -/
theorem read_leaves (chunks : List (Bytes × Bool)) (last : RecvEnd) (mem : ReadMem) :
    Refines 0 (OnHeap.readFromClient chunks last mem) (readFromClient chunks last mem)
      (ReadTo (readLeft chunks last mem)) := by
  refine (StringVar.Stands.placed _ _).bind fun buf s m hnew hplaced => ?_
  obtain ⟨m, hs, rfl⟩ := hplaced
  rw [Multiset.add_zero]
  refine (hs.appendChunks chunks).bind ?_
  rintro ⟨ok, buf⟩ ⟨ok', s'⟩ m happ ⟨rfl, hs', hdata, hnone, hall⟩
  have hbuf : mem.buf = true ↔ s.data ≠ none := by
    cases hmem : mem.buf with
    | false =>
      rw [hmem] at hnew
      exact iff_of_false Bool.false_ne_true (not_not_intro (StringT.newString_null hnew))
    | true =>
      rw [hmem] at hnew
      exact iff_of_true rfl (StringT.newString_data hnew)
  cases ok with
  | false =>
    have hleft : readLeft chunks last mem = 0 :=
      if_neg fun ⟨_, hmem, hchunks⟩ => Bool.false_ne_true ((hall (hbuf.mp hmem)).mpr hchunks)
    rw [hleft]
    exact hs'.freed (refines_none rfl)
  | true =>
    cases last with
    | again =>
      rw [readLeft, if_neg fun h => h.1 rfl]
      exact hs'.makeNode mem
    | failed | closed =>
      refine refines_pure ?_
      by_cases hmem : mem.buf = true
      · have hsome := hbuf.mp hmem
        rw [ReadTo, readLeft, if_pos ⟨by decide, hmem, (hall hsome).mp rfl⟩]
        exact hs'.card (hdata hsome)
      · have hnull : s'.data = none := hnone (by rwa [hbuf, not_not] at hmem)
        rw [ReadTo, readLeft, if_neg fun h => hmem h.2.1, hs'.eq_zero hnull, Multiset.card_zero]

end Read

/-! ### Handling -/

/-- A handler on the heap. -/
abbrev HeapFn := (ℕ → Bool) → ResponseVar → HttpRequest → OnHeap UInt8 ResponseVar

instance : Inhabited HeapFn := ⟨fun _ r _ => pure r⟩

/-- `handle_conn` without a heap: the response, if there is one. -/
def handleConn (kh : KHash RouteFn) (llhttp : Llhttp) (route : kh.Table) (w : World) (buffer : StringT) :
    Eval (Option StringT) :=
  if buffer.data.isNone then pure none
  else do
    let bytes ← buffer.bytes
    match ← dispatchConn kh llhttp route bytes with
    | none => pure none
    | some (req, target) => do
      let r ← fillResponse w.files w.mem initResp req (target.withMem w.mem)
      let resp ← generateResponse r w.memResp
      pure (some resp)

namespace OnHeap

/-- The calls of `register_route` in `main`. -/
def mainRoutes : List (Bytes × HeapFn) :=
  [(ascii "/".toList, fun mem r req => homePage r req mem),
    (ascii "/api".toList, fun mem r req => apiHomePage r req mem)]

/-- The call in the `switch` of `handle_conn`. -/
def fillResponse (files : Files) (mem : ℕ → Bool) (r : ResponseVar) (req : HttpRequest) :
    Target HeapFn → OnHeap UInt8 ResponseVar
  | .handler func => func mem r req
  | .notFound => do
    let (r, _) ← handleNotFound files r req mem
    pure r
  | .nothing => pure r

/-- The structure at `p` is accessed. -/
def touch (p : ℕ) : OnHeap UInt8 Unit := do
  let _ ← OnHeap.load p
  pure ()

/-- `handle_conn`. -/
def handleConn (kh : KHash HeapFn) (llhttp : Llhttp) (route : kh.Table) (w : World) (node : NodeVar) :
    OnHeap UInt8 (Option StringVar) := do
  touch node.addr
  if node.buffer.data.isNone then pure none
  else do
    touch node.req     -- `init_req_ctx`
    touch node.resp    -- `init_resp_ctx`
    let buffer ← string node.buffer
    let bytes ← buffer.bytes
    match ← dispatchConn kh llhttp route bytes with
    | none => pure none
    | some (req, target) => do
      let r ← fillResponse w.files w.mem initRespVar req target
      let resp ← generateResponse r w.memResp
      pure (some resp)

end OnHeap

/-- The request in a buffer, if it is accepted, and the path that is looked up. -/
def requested (llhttp : Llhttp) (buf : Bytes) : Eval (Option (HttpRequest × Option Bytes)) := do
  let (ok, req) ← parseHttpRequest llhttp buf
  if ok = 1 then pure none
  else match ← getMothodType req.method with
    | .get => do
      let path ← readString req.url.path
      pure (some (req, some path))
    | .post | .unknown => pure (some (req, none))

/-- What is called after the lookup. -/
def targetAt {V : Type} (calls : List (Bytes × V)) : Option Bytes → Target V
  | some path => targetOf calls path
  | none => .nothing

lemma dispatchConn_eq {V : Type} {kh : KHash V} {content : kh.Table → Bytes → Option V}
    (hkh : kh.Correct content) (calls : List (Bytes × V)) (llhttp : Llhttp) (buf : Bytes) :
    dispatchConn kh llhttp (registerRoutes kh calls) buf =
      (requested llhttp buf).map (Option.map fun p => (p.1, targetAt calls p.2)) := by
  rw [dispatchConn, requested]
  cases parseHttpRequest llhttp buf with
  | error u => rfl
  | ok p =>
    obtain ⟨ok, req⟩ := p
    simp only [ok_bind]
    split_ifs with hok
    · rfl
    · rw [dispatch]
      cases getMothodType req.method with
      | error u => rfl
      | ok method =>
        cases method with
        | get =>
          simp only [ok_bind]
          cases readString req.url.path with
          | error u => rfl
          | ok path =>
            simp only [ok_bind, routeLookup_registerRoutes hkh]
            show _ = Except.ok (some (req, targetOf calls path))
            rw [targetOf]
            cases calls.lookup path <;> rfl
        | post | unknown => rfl

/-- What the function on the heap does is what the other one does, and `n` blocks are left where there
is memory. -/
def Implements (n : ℕ) (func' : HeapFn) (func : RouteFn) : Prop :=
  ∀ mem req, Refines 0 (func' mem initRespVar req) (func mem initResp req) fun v r m =>
    v.Takes (∀ i, mem i = true) n r m

/-- A function that is registered, on the heap and without it. -/
structure RouteVar where
  path : Bytes
  left : ℕ
  func' : HeapFn
  func : RouteFn
  alike : Implements left func' func

namespace RouteVar

/-- The calls of `register_route` for the functions on the heap. -/
def onHeap (routes : List RouteVar) : List (Bytes × HeapFn) := routes.map fun r => (r.path, r.func')

def plain (routes : List RouteVar) : List (Bytes × RouteFn) := routes.map fun r => (r.path, r.func)

/-- The function that is found for a path. -/
def find (routes : List RouteVar) (path : Bytes) : Option RouteVar := routes.find? fun r => path == r.path

/-- The blocks that are left besides the string of the response. -/
def leftAt (routes : List RouteVar) (r : HttpResponse) : Option Bytes → ℕ
  | none => 0
  | some path =>
    match find routes path with
    | some route => route.left
    | none => if r.headerCount = 0 then 0 else 2

lemma targetOf_map {V : Type} (f : RouteVar → V) (routes : List RouteVar) (path : Bytes) :
    targetOf (routes.map fun r => (r.path, f r)) path =
      match find routes path with
      | some r => .handler (f r)
      | none => .notFound := by
  induction routes with
  | nil => rfl
  | cons route routes ih =>
    rw [targetOf] at ih ⊢
    rw [find, List.map_cons, List.lookup_cons, List.find?_cons]
    cases path == route.path with
    | false => exact ih
    | true => rfl

/-- What is called after the lookup does the same. -/
lemma fillResponse (routes : List RouteVar) (files : Files) (mem : ℕ → Bool) (req : HttpRequest)
    (path : Option Bytes) :
    Refines 0 (OnHeap.fillResponse files mem initRespVar req (targetAt (onHeap routes) path))
      (fillResponse files mem initResp req ((targetAt (plain routes) path).withMem mem)) fun v r m =>
        v.Takes (∀ i, mem i = true) (leftAt routes r path) r m := by
  cases path with
  | none => exact refines_pure ⟨0, 0, initRespVar_stands, rfl, fun _ => rfl⟩
  | some path =>
    rw [targetAt, targetAt, onHeap, plain, targetOf_map, targetOf_map]
    cases hfind : find routes path with
    | some route =>
      simp only [leftAt, hfind]
      exact route.alike mem req
    | none =>
      simp only [leftAt, hfind]
      exact (initRespVar_stands.handleNotFound req mem rfl files).bind fun p' p m _ h => refines_pure h.1

end RouteVar

/-- What `handle_conn` comes to with the blocks `m` of the node. -/
inductive Handles (routes : List RouteVar) (llhttp : Llhttp) (w : World) (buffer : StringT) (m : Owned UInt8) :
    Option StringVar → Option StringT → Owned UInt8 → Prop
  | null (hdata : buffer.data = none) : Handles routes llhttp w buffer m none none m
  | refused (bytes : Bytes) (hbytes : buffer.bytes = .ok bytes)
      (hrequested : requested llhttp bytes = .ok none) : Handles routes llhttp w buffer m none none m
  | answered (bytes : Bytes) (req : HttpRequest) (path : Option Bytes) (r : HttpResponse) (v : StringVar)
      (s : StringT) (ms k : Owned UInt8) (hbytes : buffer.bytes = .ok bytes)
      (hrequested : requested llhttp bytes = .ok (some (req, path)))
      (hfill : fillResponse w.files w.mem initResp req
        ((targetAt (RouteVar.plain routes) path).withMem w.mem) = .ok r)
      (hresp : v.Stands s ms)
      (hcard : (∀ i, w.mem i = true) → (∀ i, w.memResp i = true) →
        s.data ≠ none ∧ Multiset.card (ms + k) = RouteVar.leftAt routes r path + 1) :
      Handles routes llhttp w buffer m (some v) (some s) (ms + k + m)

lemma refines_touch {m k : Owned UInt8} {p : ℕ} {block : Block} (hm : m = {(p, block)} + k) :
    Refines m (OnHeap.touch p) (pure ()) fun _ _ m' => m' = m := by
  rw [hm]
  exact refines_load.bind_left fun _ m' h => refines_pure h.2

section Handle

variable {kh : KHash RouteFn} {content : kh.Table → Bytes → Option RouteFn} (hkh : kh.Correct content)
  {kh' : KHash HeapFn} {content' : kh'.Table → Bytes → Option HeapFn} (hkh' : kh'.Correct content')

include hkh hkh'

lemma NodeVar.Stands.handles (routes : List RouteVar) (llhttp : Llhttp) (w : World) {node : NodeVar}
    {buffer : StringT} {m : Owned UInt8} (hnode : node.Stands buffer m) :
    Refines m (OnHeap.handleConn kh' llhttp (registerRoutes kh' (RouteVar.onHeap routes)) w node)
      (handleConn kh llhttp (registerRoutes kh (RouteVar.plain routes)) w buffer)
      (Handles routes llhttp w buffer m) := by
  obtain ⟨mb, hbuffer, hm⟩ := hnode
  refine (refines_touch (p := node.addr) (k := {(node.resp, [])} + {(node.req, [])} + mb)
    (by rw [hm]; abel)).bind_left fun _ m' hm' => ?_
  rw [hm', handleConn]
  simp only [hbuffer.data_isNone]
  cases hdata : buffer.data.isNone with
  | true => exact refines_pure (.null (Option.isNone_iff_eq_none.mp hdata))
  | false =>
    refine (refines_touch (p := node.req) (k := {(node.resp, [])} + {(node.addr, [])} + mb)
      (by rw [hm]; abel)).bind_left fun _ m' hm' => ?_
    rw [hm']
    refine (refines_touch (p := node.resp) (k := {(node.req, [])} + {(node.addr, [])} + mb)
      (by rw [hm]; abel)).bind_left fun _ m' hm' => ?_
    rw [hm']
    have hstring := hbuffer.string.frame ({(node.resp, [])} + {(node.req, [])} + {(node.addr, [])})
    rw [Multiset.add_comm, ← hm] at hstring
    refine hstring.bind_left fun s m' hs => ?_
    obtain ⟨m₀, hm', rfl, -, rfl⟩ := hs
    rw [hm', Multiset.add_comm, ← hm]
    refine (refines_lift _).bind fun bytes bytes' m' hbytes heq => ?_
    obtain ⟨rfl, rfl⟩ := heq
    rw [dispatchConn_eq hkh, dispatchConn_eq hkh']
    refine (refines_lift_map _ _ _).bind fun d' d m' _ hd => ?_
    obtain ⟨rfl, dispatched, hrequested, rfl, rfl⟩ := hd
    cases dispatched with
    | none => exact refines_pure (.refused bytes hbytes hrequested)
    | some p =>
      obtain ⟨req, path⟩ := p
      have hfilled := (RouteVar.fillResponse routes w.files w.mem req path).frame m'
      rw [Multiset.zero_add] at hfilled
      refine hfilled.bind fun v r m'' hfill hframe => ?_
      obtain ⟨mr, rfl, mb', k, hr, rfl, hcard⟩ := hframe
      rw [Multiset.add_assoc]
      refine (hr.generateResponse (k + m') w.memResp).bind fun resp t m'' _ hbuilt => ?_
      obtain ⟨ms, left, ht, rfl, hfull⟩ := hbuilt
      rw [show ms + left + (mb' + (k + m')) = ms + (left + (mb' + k)) + m' by abel]
      refine refines_pure (.answered bytes req path r resp t ms _ hbytes hrequested hfill ht ?_)
      intro hmem hmemResp
      obtain ⟨hdata', rfl⟩ := hfull hmemResp
      refine ⟨hdata', ?_⟩
      rw [Multiset.card_add, Multiset.zero_add, hcard hmem, ht.card hdata', Nat.add_comm]

/-- Whatever there is memory for, `handle_conn` does on the heap what it does without one: it accesses no
block that is gone, and it frees none twice. The blocks of the node are still there afterwards. -/
theorem handle_conn_refines (routes : List RouteVar) (llhttp : Llhttp) (w : World) {node : NodeVar}
    {buffer : StringT} {m : Owned UInt8} (hnode : node.Stands buffer m) :
    Refines m (OnHeap.handleConn kh' llhttp (registerRoutes kh' (RouteVar.onHeap routes)) w node)
      (handleConn kh llhttp (registerRoutes kh (RouteVar.plain routes)) w buffer)
      fun resp s m' => (resp = none ∧ s = none ∧ m' = m) ∨
        ∃ v t ms k, resp = some v ∧ s = some t ∧ v.Stands t ms ∧ m' = ms + k + m := by
  refine (hnode.handles hkh hkh' routes llhttp w).mono fun resp s m' _ h => ?_
  cases h with
  | null | refused => exact .inl ⟨rfl, rfl, rfl⟩
  | answered bytes req path r v t ms k _ _ _ ht => exact .inr ⟨v, t, ms, k, rfl, rfl, ht, rfl⟩

end Handle

/-- The routes of `main`. -/
def mainRouteVars : List RouteVar :=
  [⟨ascii "/".toList, 1, fun mem r req => OnHeap.homePage r req mem,
      fun mem r req => homePage r req mem, fun mem req => initRespVar_stands.homePage req mem⟩,
    ⟨ascii "/api".toList, 2, fun mem r req => OnHeap.apiHomePage r req mem,
      fun mem r req => apiHomePage r req mem, fun mem req => initRespVar_stands.apiHomePage req mem⟩]

/-- A node, and its blocks with a request for `/`. -/
def rootNode : NodeVar := ⟨0, ⟨18, some 3⟩, 1, 2⟩

def rootBlocks : Owned UInt8 :=
  {(2, [])} + {(1, [])} + {(0, [])} + {(3, terminated (ascii "GET / HTTP/1.1\r\n\r\n".toList))}

/-- There is memory for the response, but not for its body. -/
def bodiless : World := ⟨⟨none, none, fun _ => none⟩, fun _ => false, memAll⟩

theorem handle_conn_refines_root :
    Refines rootBlocks
      (OnHeap.handleConn (listHash HeapFn) rootLlhttp (registerRoutes (listHash HeapFn) OnHeap.mainRoutes)
        bodiless rootNode)
      (handleConn (listHash RouteFn) rootLlhttp (registerRoutes (listHash RouteFn) mainRoutes) bodiless
        (.of (ascii "GET / HTTP/1.1\r\n\r\n".toList)))
      fun resp s m' => (resp = none ∧ s = none ∧ m' = rootBlocks) ∨
        ∃ v t ms k, resp = some v ∧ s = some t ∧ v.Stands t ms ∧ m' = ms + k + rootBlocks :=
  handle_conn_refines (listHash_correct RouteFn) (listHash_correct HeapFn) mainRouteVars rootLlhttp bodiless
    ⟨_, .data _ _ _, rfl⟩

end Ccybe
