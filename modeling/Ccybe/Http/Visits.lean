import Ccybe.Http.Account

/-!
# What requests leave on the heap

A visit is a READ event with what follows it, up to the end of `write_to_client`. Where there is memory,
the blocks that it leaves are counted from what is received and what the file system answers.
-/

namespace Ccybe

open CSem

/-! ### What is left of an answered request -/

/-- The response of `handle_not_found` has headers. -/
def filled (files : Files) (path : Bytes) : Bool :=
  match files.stat with
  | none => true
  | some (.regular, size) => (mimeOf (extension (filePath path))).isSome && files.opened.isSome &&
      (files.read (toInt size + 1).toNat).isSome
  | some _ => false

/-- The blocks that are left of an answered request after its node is freed: the response, and for a page
its body, and for all but the first page the string that the body is a copy of. -/
def answerLeft (files : Files) : Option Bytes → ℕ
  | none => 1
  | some path =>
    if path = ascii "/".toList then 2
    else if path = ascii "/api".toList then 3
    else if filled files path then 3 else 1

lemma notFoundPage_count {r r' : HttpResponse} {req : HttpRequest} {mem : ℕ → Bool}
    (h : notFoundPage r req mem = .ok r') : r'.headerCount = r.headerCount + 3 := by
  obtain ⟨temp, -, h⟩ := bind_eq_ok.mp h
  obtain ⟨p, -, h⟩ := bind_eq_ok.mp h
  obtain ⟨p', -, h⟩ := bind_eq_ok.mp h
  obtain ⟨body, -, h⟩ := bind_eq_ok.mp h
  exact (threeHeaders_sets "text/plain".toList "keep-alive".toList).count
    { r with statusCode := 404, body := body } r' h

/-- A file is served if it was read, and else no header is set. -/
lemma handleStaticFiles_count {files : Files} {cells : Block} {mime : Option MimeType}
    (hmime : getMime cells = .ok mime) {size : Int} {p : HttpResponse × List Fd}
    (h : handleStaticFiles files initResp cells size memAll = .ok p) :
    p.1.headerCount = 0 ↔
      (mime.isSome && files.opened.isSome && (files.read (size + 1).toNat).isSome) = false := by
  rw [handleStaticFiles, hmime, ok_bind] at h
  cases mime with
  | none =>
    cases h
    exact iff_of_true rfl rfl
  | some mimeId =>
    cases hopen : files.opened with
    | none =>
      rw [hopen] at h
      cases h
      exact iff_of_true rfl rfl
    | some fd =>
      rw [hopen] at h
      obtain ⟨len, hlen, h⟩ := bind_eq_ok.mp h
      obtain rfl := add_eq_ok hlen
      obtain ⟨temp, hnew, h⟩ := bind_eq_ok.mp h
      obtain ⟨n, hn, hint⟩ := newNString_int hnew
      rw [hn, StringT.newNString_eq hint] at hnew
      cases hnew
      obtain ⟨t, hread, h⟩ := bind_eq_ok.mp h
      rw [readFile, Int.toNat_natCast] at hread
      rw [hn, Int.toNat_natCast, Option.isSome_some, Option.isSome_some, Bool.true_and, Bool.true_and]
      cases hbytes : files.read n with
      | none =>
        rw [hbytes] at hread
        cases hread
        cases h
        exact iff_of_true rfl rfl
      | some bs =>
        rw [hbytes] at hread
        obtain ⟨data, -, hread⟩ := bind_eq_ok.mp hread
        rw [pure_eq_ok, Except.ok.injEq] at hread
        rw [← hread] at h
        obtain ⟨body, -, h⟩ := bind_eq_ok.mp h
        obtain ⟨length, -, h⟩ := bind_eq_ok.mp h
        obtain ⟨r₁, h₁, h⟩ := bind_eq_ok.mp h
        obtain ⟨r₂, h₂, h⟩ := bind_eq_ok.mp h
        obtain ⟨r₃, h₃, h⟩ := bind_eq_ok.mp h
        cases h
        refine iff_of_false ?_ Bool.false_ne_true.symm
        have hcount₁ := (setHeader_sets _ _).count _ _ h₁
        have hcount₂ := (setHeader_sets _ _).count _ _ h₂
        have hcount₃ := (setHeader_sets _ _).count _ _ h₃
        have hinit : initResp.headerCount = 0 := rfl
        simp only at hcount₁ ⊢
        omega

section Left

variable {files : Files} {req : HttpRequest} {r : HttpResponse}

/-- The response of `handle_not_found` is filled in where `filled` says so. -/
lemma handleNotFound_count {path : Bytes} (hpath : HasString req.url.path path) (hlen : path.length ≤ 255)
    {p : HttpResponse × List Fd} (h : handleNotFound files initResp req memAll = .ok p) :
    p.1.headerCount = 0 ↔ filled files path = false := by
  rw [handleNotFound_mem hpath hlen rfl rfl] at h
  rw [filled]
  rcases hstat : files.stat with - | ⟨kind, size⟩ <;> rw [hstat] at h
  · obtain ⟨r, hpage, rfl⟩ := map_eq_ok.mp h
    refine iff_of_false ?_ Bool.false_ne_true.symm
    rw [notFoundPage_count hpage]
    decide
  · cases kind with
    | regular =>
      have hint : (filePath path).length ≤ 2147483647 := by
        rw [length_filePath]
        omega
      rcases getMime_cases (filePath_string hpath.1) hint with ⟨-, hmime⟩ | ⟨-, herror⟩
      · exact handleStaticFiles_count hmime h
      · have hstatic : handleStaticFiles files initResp (terminated (filePath path)) (toInt size) memAll =
            .ok p := h
        rw [handleStaticFiles, herror] at hstatic
        cases hstatic
    | directory | other =>
      cases h
      exact iff_of_true rfl rfl

/-- With the routes of `main`, what is left besides the string of the response. -/
lemma leftAt_main {path : Option Bytes} (hpath : ∀ p ∈ path, HasString req.url.path p ∧ p.length ≤ 255)
    (h : fillResponse files memAll initResp req ((targetAt mainRoutes path).withMem memAll) = .ok r) :
    RouteVar.leftAt mainRouteVars r path + 1 = answerLeft files path := by
  cases path with
  | none => rfl
  | some p =>
    obtain ⟨hstring, hlen⟩ := hpath p rfl
    by_cases hroot : p = ascii "/".toList
    · rw [answerLeft, if_pos hroot, hroot]
      rfl
    · by_cases hapi : p = ascii "/api".toList
      · rw [answerLeft, if_neg hroot, if_pos hapi, hapi]
        rfl
      · have hfind : RouteVar.find mainRouteVars p = none := by
          refine List.find?_eq_none.mpr ?_
          rw [mainRouteVars, List.forall_mem_cons, List.forall_mem_singleton, beq_iff_eq, beq_iff_eq]
          exact ⟨hroot, hapi⟩
        have htarget : targetAt mainRoutes (some p) = .notFound := by
          have hmap := RouteVar.targetOf_map RouteVar.func mainRouteVars p
          rwa [hfind] at hmap
        rw [htarget] at h
        obtain ⟨q, hq, h⟩ := bind_eq_ok.mp h
        cases h
        have hcount := handleNotFound_count hstring hlen hq
        rw [answerLeft, if_neg hroot, if_neg hapi]
        simp only [RouteVar.leftAt, hfind, hcount]
        cases filled files p <;> rfl

end Left

/-- The path that is looked up is that of the URL. -/
lemma requested_path {llhttp : Llhttp} {buf : Bytes} {req : HttpRequest} {path : Option Bytes}
    (h : requested llhttp buf = .ok (some (req, path))) :
    ∀ p ∈ path, HasString req.url.path p ∧ p.length ≤ 255 := by
  obtain ⟨⟨ok, req'⟩, hparse, h⟩ := bind_eq_ok.mp h
  simp only at h
  split_ifs at h with hok
  · cases h
  · obtain ⟨-, text, -, -, -, hpath, hlen⟩ := parse_accepted hparse hok
    obtain ⟨method, -, h⟩ := bind_eq_ok.mp h
    cases method with
    | get =>
      obtain ⟨p, hread, h⟩ := bind_eq_ok.mp h
      cases h
      rw [hpath.readString_eq, Except.ok.injEq] at hread
      rintro _ ⟨⟩
      rw [← hread]
      exact ⟨hpath, hlen⟩
    | post | unknown =>
      cases h
      exact fun p hp => by cases hp

/-! ### From one READ event to the end of the response -/

/-- The bytes that `send` is called for. -/
def bytesToSend (resp : StringT) : Eval Bytes := if resp.data.isNone then pure [] else resp.bytes

/-- What `write_to_client` makes of a response, where `send` accepts all bytes or not. -/
def writeToClient (resp : StringT) (sent : Bool) : Eval (Option Bytes) := do
  let bytes ← bytesToSend resp
  if !sent then pure none else pure (some bytes)

/-- `write_to_client`; where `send` fails it returns at once. -/
def OnHeap.writeToClient (node : NodeVar) (resp : StringVar) (sent : Bool) :
    OnHeap UInt8 (Option Bytes) := do
  touch node.addr
  touch node.resp
  let s ← string resp
  let bytes ← bytesToSend s
  if !sent then pure none
  else do
    freeString node.buffer
    OnHeap.free node.resp
    OnHeap.free node.req
    OnHeap.free node.addr
    pure (some bytes)

/-- What happens in a READ event and after it, where there is memory. -/
structure Visit where
  chunks : List Bytes
  last : RecvEnd
  pushed : Bool      -- the result of `push_task`
  files : Files
  sent : Bool        -- `send` accepts all bytes

namespace Visit

/-- There is memory for everything. -/
def memory : ReadMem := ⟨true, true, true, true, true⟩

/-- The chunks with the memory for them. -/
def received (v : Visit) : List (Bytes × Bool) := v.chunks.map fun chunk => (chunk, true)

/-- The bytes that are sent, if all are. -/
def run (kh : KHash RouteFn) (llhttp : Llhttp) (v : Visit) : Eval (Option Bytes) := do
  match ← readFromClient v.received v.last memory with
  | none => pure none
  | some buffer =>
    if !v.pushed then pure none
    else do
      match ← handleConn kh llhttp (registerRoutes kh mainRoutes) ⟨v.files, memAll, memAll⟩ buffer with
      | none => pure none
      | some resp => writeToClient resp v.sent

/-- The same on the heap. -/
def onHeap (kh : KHash HeapFn) (llhttp : Llhttp) (v : Visit) : OnHeap UInt8 (Option Bytes) := do
  match ← OnHeap.readFromClient v.received v.last memory with
  | none => pure none
  | some node =>
    if !v.pushed then pure none
    else do
      match ← OnHeap.handleConn kh llhttp (registerRoutes kh OnHeap.mainRoutes)
          ⟨v.files, memAll, memAll⟩ node with
      | none => pure none
      | some resp => OnHeap.writeToClient node resp v.sent

/-- The blocks that are left afterwards. -/
def left (llhttp : Llhttp) (v : Visit) : ℕ :=
  if v.last ≠ .again then 1
  else if !v.pushed then 4
  else match requested llhttp (textOf v.chunks) with
    | .error _ => 0
    | .ok none => 4
    | .ok (some (_, path)) => answerLeft v.files path + if v.sent then 0 else 4

end Visit

section Buffer

variable {buf buf' buffer : StringT} {acc : Bytes} {chunks : List Bytes} {ok : Bool}

lemma appendChunks_holds (hbuf : buf.Holds acc)
    (h : appendChunks buf (chunks.map fun chunk => (chunk, true)) = .ok (ok, buf')) :
    ok = true ∧ buf'.Holds (acc ++ textOf chunks) := by
  induction chunks generalizing buf acc with
  | nil =>
    cases h
    exact ⟨rfl, by rwa [textOf, List.flatMap_nil, List.append_nil]⟩
  | cons chunk chunks ih =>
    rw [List.map_cons, appendChunks] at h
    have hchunk := hasString_terminated_cstr chunk
    rcases le_or_gt (acc.length + (cstr chunk).length + 1) 2147483647 with hle | hgt
    · obtain ⟨s, happ, hs⟩ := StringT.appendStringCstr_eq hbuf hchunk hle
      rw [happ] at h
      have hrest := ih hs h
      rwa [textOf, List.flatMap_cons, ← List.append_assoc]
    · rw [StringT.appendStringCstr_overflow hbuf hchunk hgt] at h
      cases h

/-- Where there is memory the buffer of the node is the text that was received. -/
lemma readFromClient_text {r : Option StringT}
    (h : readFromClient (chunks.map fun chunk => (chunk, true)) .again Visit.memory = .ok r) :
    ∃ buffer, r = some buffer ∧ buffer.bytes = .ok (textOf chunks) := by
  have hempty : HasString (terminated []) [] := hasString_terminated List.not_mem_nil
  obtain ⟨buf, hnew, hbuf⟩ := StringT.newString_eq hempty (by decide)
  rw [readFromClient, Visit.memory, hnew, ok_bind] at h
  obtain ⟨⟨ok, buf'⟩, happ, h⟩ := bind_eq_ok.mp h
  obtain ⟨rfl, hbuf'⟩ := appendChunks_holds hbuf happ
  obtain ⟨copy, hcopy, h⟩ := bind_eq_ok.mp h
  have hdata := StringT.copyString_data hcopy
  have hsome : copy.data.isNone = false := Option.isNone_eq_false_iff.mpr (Option.isSome_iff_ne_none.mpr hdata)
  rw [hsome] at h
  cases h
  exact ⟨copy, rfl, (StringT.copyString_holds (.inl hbuf') hcopy hdata).bytes_eq⟩

/-- Where `recv` fails or the peer closes nothing is handed over. -/
lemma readFromClient_lost {chunks : List (Bytes × Bool)} {last : RecvEnd} {mem : ReadMem}
    (hlast : last ≠ .again) {r : Option StringT} (h : readFromClient chunks last mem = .ok r) : r = none := by
  obtain ⟨buf, -, h⟩ := bind_eq_ok.mp h
  obtain ⟨⟨ok, buf'⟩, -, h⟩ := bind_eq_ok.mp h
  cases ok with
  | false =>
    cases h
    rfl
  | true =>
    cases last with
    | again => exact absurd rfl hlast
    | failed | closed =>
      cases h
      rfl

end Buffer

/-- The end of `write_to_client` frees the node. -/
lemma NodeVar.Stands.writeToClient {node : NodeVar} {buffer : StringT} {m ms : Owned UInt8}
    (hnode : node.Stands buffer m) {resp : StringVar} {s : StringT} (hresp : resp.Stands s ms)
    (k : Owned UInt8) (sent : Bool) :
    Refines (ms + k + m) (OnHeap.writeToClient node resp sent) (writeToClient s sent) fun b c m' =>
      b = c ∧ m' = ms + k + if sent then 0 else m := by
  obtain ⟨mb, hbuffer, rfl⟩ := hnode
  refine (refines_touch (p := node.addr) (k := {(node.resp, [])} + {(node.req, [])} + mb + (ms + k))
    (by abel)).bind_left fun _ m' hm' => ?_
  rw [hm']
  refine (refines_touch (p := node.resp) (k := {(node.req, [])} + {(node.addr, [])} + mb + (ms + k))
    (by abel)).bind_left fun _ m' hm' => ?_
  rw [hm']
  have hstring := hresp.string.frame (k + ({(node.resp, [])} + {(node.req, [])} + {(node.addr, [])} + mb))
  rw [← Multiset.add_assoc] at hstring
  refine hstring.bind_left fun t m₂ ht => ?_
  obtain ⟨m₀, hm₂, rfl, -, rfl⟩ := ht
  refine (refines_lift _).bind fun bytes bytes' m₃ _ heq => ?_
  obtain ⟨rfl, rfl⟩ := heq
  cases sent with
  | false => exact refines_pure ⟨rfl, by rw [hm₂]; simp only [Bool.false_eq_true, if_false]; abel⟩
  | true =>
    rw [hm₂, show m₀ + (k + ({(node.resp, [])} + {(node.req, [])} + {(node.addr, [])} + mb)) =
      mb + ({(node.resp, [])} + ({(node.req, [])} + ({(node.addr, [])} + (m₀ + k)))) by abel]
    refine (hbuffer.freeString _).bind_left fun _ m' hfree => ?_
    rw [hfree]
    refine refines_free.bind_left fun _ m' hfree => ?_
    rw [hfree]
    refine refines_free.bind_left fun _ m' hfree => ?_
    rw [hfree]
    refine refines_free.bind_left fun _ m' hfree => ?_
    rw [hfree]
    exact refines_pure ⟨rfl, (Multiset.add_zero _).symm⟩

lemma NodeVar.Stands.card {node : NodeVar} {buffer : StringT} {m : Owned UInt8}
    (hnode : node.Stands buffer m) (hdata : buffer.data ≠ none) : Multiset.card m = 4 := by
  obtain ⟨mb, hbuffer, rfl⟩ := hnode
  simp only [Multiset.card_add, Multiset.card_singleton, hbuffer.card hdata]

namespace Visit

variable {kh : KHash RouteFn} {content : kh.Table → Bytes → Option RouteFn} (hkh : kh.Correct content)
  {kh' : KHash HeapFn} {content' : kh'.Table → Bytes → Option HeapFn} (hkh' : kh'.Correct content')

include hkh hkh'

/-- A visit leaves its blocks, and there is one at least. -/
lemma refines (llhttp : Llhttp) (v : Visit) :
    Refines 0 (v.onHeap kh' llhttp) (v.run kh llhttp) fun b c m =>
      b = c ∧ Multiset.card m = v.left llhttp ∧ 1 ≤ v.left llhttp := by
  obtain ⟨chunks, last, pushed, files, sent⟩ := v
  refine (read_leaves _ last memory).bind fun node buffer m hread hto => ?_
  by_cases hlast : last ≠ .again
  · have hleft : left llhttp ⟨chunks, last, pushed, files, sent⟩ = 1 := if_pos hlast
    obtain rfl := readFromClient_lost hlast hread
    rw [readLeft, if_pos ⟨hlast, rfl, by simp [received]⟩] at hto
    cases node with
    | some node => cases hto
    | none => exact refines_pure ⟨rfl, hto.trans hleft.symm, hleft.ge⟩
  · rw [not_not] at hlast
    subst hlast
    obtain ⟨buffer, rfl, hbytes⟩ := readFromClient_text hread
    cases node with
    | none => cases hto
    | some node =>
      obtain ⟨hnode, hdata⟩ := hto
      have hfour := hnode.card hdata
      cases pushed with
      | false => exact refines_pure ⟨rfl, hfour, (by decide : 1 ≤ 4)⟩
      | true =>
        refine (hnode.handles hkh hkh' mainRouteVars llhttp ⟨files, memAll, memAll⟩).bind
          fun resp s m' hhandle hto => ?_
        cases hto with
        | null hnull => exact absurd hnull hdata
        | refused bytes hbytes' hrequested =>
          rw [hbytes, Except.ok.injEq] at hbytes'
          rw [← hbytes'] at hrequested
          have hleft : left llhttp ⟨chunks, .again, true, files, sent⟩ = 4 := by
            rw [left, if_neg (not_not_intro rfl), hrequested]
            rfl
          exact refines_pure ⟨rfl, hfour.trans hleft.symm, by omega⟩
        | answered bytes req path r w t ms k hbytes' hrequested hfill hresp hcard =>
          rw [hbytes, Except.ok.injEq] at hbytes'
          rw [← hbytes'] at hrequested
          have hleft : left llhttp ⟨chunks, .again, true, files, sent⟩ =
              Multiset.card (ms + k) + if sent then 0 else 4 := by
            rw [left, if_neg (not_not_intro rfl), hrequested, (hcard (fun _ => rfl) fun _ => rfl).2,
              leftAt_main (requested_path hrequested) hfill]
            rfl
          have hpos := (hcard (fun _ => rfl) fun _ => rfl).2
          refine (hnode.writeToClient hresp k sent).mono fun b c m' _ h => ?_
          obtain ⟨rfl, rfl⟩ := h
          refine ⟨rfl, ?_, by omega⟩
          rw [hleft, Multiset.card_add, apply_ite Multiset.card, hfour, Multiset.card_zero]

/-- So do many, one after the other. -/
lemma refines_mapM (llhttp : Llhttp) (vs : List Visit) (k : Owned UInt8) :
    Refines k (vs.mapM (onHeap kh' llhttp)) (vs.mapM (run kh llhttp)) fun b c m =>
      b = c ∧ ∃ more, m = more + k ∧ Multiset.card more = (vs.map (left llhttp)).sum ∧
        vs.length ≤ (vs.map (left llhttp)).sum := by
  induction vs generalizing k with
  | nil => exact refines_pure ⟨rfl, 0, (Multiset.zero_add k).symm, rfl, Nat.le_refl 0⟩
  | cons v vs ih =>
    rw [List.mapM_cons, List.mapM_cons, List.map_cons, List.sum_cons, List.length_cons]
    have hone := (refines hkh hkh' llhttp v).frame k
    rw [Multiset.zero_add] at hone
    refine hone.bind fun b c m _ h => ?_
    obtain ⟨mv, rfl, rfl, hcard, hpos⟩ := h
    refine (ih (mv + k)).bind fun bs cs m _ h => ?_
    obtain ⟨rfl, more, rfl, hmore, hlen⟩ := h
    refine refines_pure ⟨rfl, more + mv, (Multiset.add_assoc _ _ _).symm, ?_, by omega⟩
    rw [Multiset.card_add, hcard, hmore, Nat.add_comm]

end Visit

end Ccybe
