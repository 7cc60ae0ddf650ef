import TinyHttpServer.Http.HttpRead

/-!
# Requests on a byte stream

Three ways in which complete requests reach a context: one request in pieces, requests one after
the other in a read each, and several requests in one read.  In each case the question is whether
every request gets the answer that a new context gives to it alone.

* `segmentation_iff` — a request that arrives in more than one piece is answered once per piece, so
  the answer is the right one only when it arrives whole.
* `keep_alive_iff` — a body without a final `CRLF` stays unread, so requests in a read each are
  kept apart exactly when they have no body.
* `pipelining_iff` — of several requests in one read only the first is answered.
-/

set_option autoImplicit false

open Checked Lines HttpRequest

namespace HttpContext

variable {env : HttpEnv}

/-- The answer of a new context. -/
theorem output_eq_ok {data out : Bytes} (hne : data ≠ []) :
    output env [data] = .ok out ↔ ∃ rest, serve env data = .ok (rest, out) := by
  rw [output_eq env (by simpa using hne)]
  unfold serveAll
  rw [List.nil_append]
  cases serve env data with
  | error e => simp [Except.map]
  | ok served => simp [Except.map, serveAll, appended, Prod.ext_iff]

end HttpContext

namespace Request

theorem text_ne_nil (r : Request) : r.text ≠ [] :=
  List.append_ne_nil_of_right_ne_nil _ (List.cons_ne_nil _ _)

theorem output_returns_iff (env : HttpEnv) (r : Request) :
    (∃ out, HttpContext.output env [r.text] = .ok out) ↔ r.Answered env := by
  rw [← r.serve_returns_iff env]
  constructor
  · rintro ⟨out, h⟩
    obtain ⟨rest, hserve⟩ := (HttpContext.output_eq_ok r.text_ne_nil).1 h
    exact ⟨_, hserve⟩
  · rintro ⟨served, h⟩
    exact ⟨served.2, (HttpContext.output_eq_ok r.text_ne_nil).2 ⟨served.1, h⟩⟩

end Request

namespace HttpContext

/-! ## One request in pieces -/

/-- **Segmentation.**  A request that is cut into non-empty pieces gets the answer of the whole
request exactly when there is only one piece, and the whole request is answered. -/
theorem segmentation_iff (env : HttpEnv) (r : Request) (chunks : List Bytes)
    (hne : ∀ c ∈ chunks, c ≠ []) (hcut : chunks.flatten = r.text) :
    (∃ out, output env [r.text] = .ok out ∧ output env chunks = .ok out) ↔
      chunks.length = 1 ∧ r.Answered env := by
  constructor
  · rintro ⟨out, hwhole, hpieces⟩
    obtain ⟨rest, hserve⟩ := (output_eq_ok r.text_ne_nil).1 hwhole
    refine ⟨?_, (r.output_returns_iff env).1 ⟨out, hwhole⟩⟩
    rw [output_eq env hne] at hpieces
    obtain ⟨reads, hreads, hout⟩ := map_eq_ok.1 hpieces
    obtain ⟨hlen, hframed⟩ := serveAll_framed hreads
    rw [← hlen]
    cases reads with
    | nil =>
      -- there is at least one piece
      refine absurd ?_ r.text_ne_nil
      rw [← hcut, List.eq_nil_of_length_eq_zero hlen.symm]
      rfl
    | cons p reads =>
      -- the first response is a beginning of the only one that is due, so it is all of it
      have hrest : appended reads = [] :=
        (hframed p List.mem_cons_self).eq_nil_of_append (serve_framed hserve) hout
      cases reads with
      | nil => rfl
      | cons q reads =>
        exact absurd (List.append_eq_nil_iff.1 hrest).1
          (hframed q (List.mem_cons_of_mem _ List.mem_cons_self)).ne_nil
  · rintro ⟨hone, hans⟩
    obtain ⟨c, rfl⟩ := List.length_eq_one_iff.1 hone
    obtain rfl : c = r.text := by simpa using hcut
    obtain ⟨out, hout⟩ := (r.output_returns_iff env).2 hans
    exact ⟨out, hout, hout⟩

/-- A document root with three pages, and a database that knows everybody. -/
def sampleEnv : HttpEnv where
  srcDir := str "/srv"
  srcDir_ne := srv_ne_nil
  fs := fun path =>
    let page (contents : Bytes) : FileNode :=
      { isDir := false, otherRead := true, openable := true, contents }
    if path = str "/srv/index.html" then some (page (str "index"))
    else if path = str "/srv/login.html" then some (page (str "log in"))
    else if path = str "/srv/welcome.html" then some (page (str "welcome!"))
    else none
  verify := fun _ _ _ => true

/-- `GET / HTTP/1.1` with one header. -/
def getRequest : Request where
  method := str "GET"
  path := str "/"
  version := str "1.1"
  headers := [(str "Connection", str " keep-alive")]
  body := []
  method_ok := by decide
  path_ok := slash_plain
  version_ok := version_plain
  headers_ok := by decide

theorem getRequest_answered : getRequest.Answered sampleEnv := by
  show Mappable sampleEnv (str "/index.html")
  intro node h
  cases h
  decide

theorem segmentation_iff_whole :
    ∃ out, output sampleEnv [getRequest.text] = .ok out ∧
      output sampleEnv [getRequest.text] = .ok out :=
  (segmentation_iff sampleEnv getRequest [getRequest.text] (by decide) (by decide)).2
    ⟨rfl, getRequest_answered⟩

/-- The request cut inside its header: two responses, where the whole request gets one. -/
theorem cut_request_answered_twice :
    ∃ whole pieces, [getRequest.text.take 20, getRequest.text.drop 20].flatten = getRequest.text ∧
      output sampleEnv [getRequest.text] = .ok whole ∧
      output sampleEnv [getRequest.text.take 20, getRequest.text.drop 20] = .ok pieces ∧
      pieces ≠ whole := by
  rw [output_eq sampleEnv (by decide), output_eq sampleEnv (by decide)]
  obtain ⟨whole, hwhole, hlen⟩ := map_eq_ok.1 (show ((serveAll sampleEnv [] [getRequest.text]).map
    appended).map List.length = .ok 124 by decide +kernel)
  obtain ⟨pieces, hpieces, hlen'⟩ := map_eq_ok.1 (show ((serveAll sampleEnv []
    [getRequest.text.take 20, getRequest.text.drop 20]).map appended).map List.length = .ok 304 by
      decide +kernel)
  refine ⟨whole, pieces, by decide, hwhole, hpieces, ?_⟩
  intro h
  rw [h, hlen] at hlen'
  cases hlen'

end HttpContext

/-! ## Requests in a read each -/

/-- A body without a final `CRLF` is not consumed to its end. -/
theorem afterBody_ne_nil {rest : Bytes} (hne : rest ≠ []) (hend : ¬ CRLF <:+ rest) :
    Request.afterBody rest ≠ [] := by
  unfold Request.afterBody
  split
  · exact hne
  · rename_i hsearch
    intro hdrop
    have hle := search_le CRLF rest
    obtain ⟨tail, htail⟩ := search_found (show search CRLF rest < rest.length by omega)
    refine hend ⟨rest.take (search CRLF rest), ?_⟩
    have hlen := congrArg List.length htail
    rw [List.drop_eq_nil_iff] at hdrop
    rw [List.length_append, List.length_append, List.length_take, Nat.min_eq_left hle,
      show CRLF.length = 2 from rfl] at hlen
    obtain rfl : tail = [] := List.eq_nil_of_length_eq_zero (by omega)
    rw [List.append_nil] at htail
    exact htail.symm

namespace Request

variable {env : HttpEnv} {r : Request}

theorem unread_eq_nil_iff (hend : ¬ CRLF <:+ r.body) {served : Bytes × Bytes}
    (h : serve env r.text = .ok served) : served.1 = [] ↔ r.body = [] := by
  rw [r.serve_unread env h]
  split
  · rename_i hbody
    exact ⟨fun _ => hbody, fun _ => rfl⟩
  · rename_i hbody
    exact ⟨fun hrest => absurd hrest (afterBody_ne_nil hbody hend), fun h => absurd h hbody⟩

end Request

namespace HttpContext

/-- **Requests in a read each.**  A context that reads requests one after the other, each of them
whole, gives to each the answer of a new context and has nothing unread in between, exactly when
none of them has a body and all of them are answered. -/
theorem keep_alive_iff (env : HttpEnv) (rs : List Request) (hend : ∀ r ∈ rs, ¬ CRLF <:+ r.body) :
    (∃ outs, rs.mapM (fun r => output env [r.text]) = .ok outs ∧
      transcript env make (rs.map Request.text) = .ok (outs.map fun out => (out, []))) ↔
      ∀ r ∈ rs, r.body = [] ∧ r.Answered env := by
  have hne : ∀ data ∈ rs.map Request.text, data ≠ [] := by
    intro data hdata
    obtain ⟨r, -, rfl⟩ := List.mem_map.1 hdata
    exact r.text_ne_nil
  rw [transcript_eq env hne make_wf, make_unread]
  induction rs with
  | nil => exact ⟨fun _ _ h => absurd h List.not_mem_nil, fun _ => ⟨[], rfl, rfl⟩⟩
  | cons r rs ih =>
    have ih := ih (fun k hk => hend k (List.mem_cons_of_mem _ hk))
      (fun d hd => hne d (List.mem_cons_of_mem _ hd))
    have hendr := hend r List.mem_cons_self
    rw [List.forall_mem_cons]
    refine Iff.trans ?_ (and_congr_right fun _ => ih)
    simp only [List.mapM_cons, List.map_cons, serveAll, List.nil_append]
    constructor
    · rintro ⟨outs, houts, hreads⟩
      obtain ⟨out, hout, houts⟩ := bind_eq_ok.1 houts
      obtain ⟨outs', houts', houts⟩ := bind_eq_ok.1 houts
      obtain ⟨⟨rest, out'⟩, hserve, hreads⟩ := bind_eq_ok.1 hreads
      obtain ⟨tail, htail, hreads⟩ := bind_eq_ok.1 hreads
      cases houts
      simp only [pure_eq_ok, List.map_cons, Except.ok.injEq, List.cons.injEq, Prod.mk.injEq]
        at hreads
      obtain ⟨⟨rfl, rfl⟩, rfl⟩ := hreads
      have hbody := (Request.unread_eq_nil_iff hendr hserve).1 rfl
      exact ⟨⟨hbody, (r.output_returns_iff env).1 ⟨_, hout⟩⟩, outs', houts', htail⟩
    · rintro ⟨⟨hbody, hans⟩, outs, houts, hreads⟩
      obtain ⟨out, hout⟩ := (r.output_returns_iff env).2 hans
      obtain ⟨rest, hserve⟩ := (output_eq_ok r.text_ne_nil).1 hout
      obtain rfl : rest = [] := (Request.unread_eq_nil_iff hendr hserve).2 hbody
      refine ⟨out :: outs, ?_, ?_⟩
      · rw [hout, houts]
        rfl
      · rw [hserve, ok_bind, hreads]
        rfl

theorem keep_alive_iff_twice :
    ∃ outs, [getRequest, getRequest].mapM (fun r => output sampleEnv [r.text]) = .ok outs ∧
      transcript sampleEnv make [getRequest.text, getRequest.text] =
        .ok (outs.map fun out => (out, [])) :=
  (keep_alive_iff sampleEnv [getRequest, getRequest] (by decide)).2
    (by simpa using ⟨rfl, getRequest_answered⟩)

/-- A form that logs in. -/
def postRequest : Request where
  method := str "POST"
  path := str "/login"
  version := str "1.1"
  headers :=
    [(str "Connection", str " keep-alive"),
      (str "Content-Type", str " application/x-www-form-urlencoded"),
      (str "Content-Length", str " 21")]
  body := str "username=a&password=b"
  method_ok := post_plain
  path_ok := by decide
  version_ok := version_plain
  headers_ok := by decide

/-- The same form in two reads: its body stays unread both times, and the second answer is another
one, because the unread body is taken for a part of the method. -/
theorem second_form_answered_differently :
    ∃ fresh second, output sampleEnv [postRequest.text] = .ok fresh ∧
      transcript sampleEnv make [postRequest.text, postRequest.text] =
        .ok [(fresh, postRequest.body), (second, postRequest.body)] ∧ second ≠ fresh := by
  obtain ⟨⟨rest, fresh⟩, hfirst, hsize⟩ := map_eq_ok.1 (show (serve sampleEnv
    postRequest.text).map (fun p => (p.1, p.2.length)) = .ok (postRequest.body, 127) by
      decide +kernel)
  obtain ⟨⟨rest', second⟩, hsecond, hsize'⟩ := map_eq_ok.1 (show (serve sampleEnv
    (postRequest.body ++ postRequest.text)).map (fun p => (p.1, p.2.length)) =
      .ok (postRequest.body, 125) by decide +kernel)
  obtain ⟨rfl, hlen⟩ := Prod.mk.inj hsize
  obtain ⟨rfl, hlen'⟩ := Prod.mk.inj hsize'
  refine ⟨fresh, second, (output_eq_ok postRequest.text_ne_nil).2 ⟨_, hfirst⟩, ?_, ?_⟩
  · rw [transcript_eq sampleEnv (by decide) make_wf, make_unread]
    simp only [serveAll, List.nil_append, hfirst, hsecond, ok_bind, pure_eq_ok]
  · intro h
    rw [h, hlen] at hlen'
    cases hlen'

end HttpContext

/-! ## Several requests in one read -/

namespace Request

/-- The request line of a request is not all of it. -/
theorem afterBody_text_ne_nil (r : Request) (rest : Bytes) : afterBody (r.text ++ rest) ≠ [] := by
  have htext : r.text ++ rest = r.requestLine ++
      (CRLF ++ (render CR LF (r.headers.map headerLine) ++ (CRLF ++ (r.body ++ rest)))) := by
    simp [text, head, CRLF]
  have hsearch : search CRLF (r.text ++ rest) = r.requestLine.length := by
    rw [htext]
    exact search_append r.cr_not_mem_requestLine _
  have hlen := congrArg List.length htext
  simp only [List.length_append, show CRLF.length = 2 from rfl] at hlen
  unfold afterBody
  rw [hsearch, List.length_append, if_neg (by omega)]
  intro hdrop
  rw [List.drop_eq_nil_iff, List.length_append] at hdrop
  omega

end Request

namespace HttpContext

/-- **Several requests in one read.**  Requests without a body that arrive together all get the
answers of a new context, with nothing left unread, exactly when there is one of them and it is
answered. -/
theorem pipelining_iff (env : HttpEnv) (rs : List Request) (hne : rs ≠ [])
    (hbody : ∀ r ∈ rs, r.body = []) :
    (∃ outs, rs.mapM (fun r => output env [r.text]) = .ok outs ∧
      transcript env make [rs.flatMap Request.text] = .ok [(outs.flatten, [])]) ↔
      rs.length = 1 ∧ ∀ r ∈ rs, r.Answered env := by
  cases rs with
  | nil => exact absurd rfl hne
  | cons r rs =>
    have htext : (r :: rs).flatMap Request.text =
        r.head ++ (CRLF ++ rs.flatMap Request.text) := by
      rw [List.flatMap_cons, Request.text, hbody r List.mem_cons_self, List.append_nil,
        List.append_assoc]
    have hdata : (r :: rs).flatMap Request.text ≠ [] := by
      rw [List.flatMap_cons]
      exact List.append_ne_nil_of_left_ne_nil r.text_ne_nil _
    rw [transcript_eq env (by simpa using hdata) make_wf, make_unread]
    simp only [serveAll, List.nil_append]
    constructor
    · rintro ⟨outs, houts, hread⟩
      obtain ⟨⟨rest, out⟩, hserve, hread⟩ := bind_eq_ok.1 hread
      simp only [pure_eq_ok, ok_bind, Except.ok.injEq, List.cons.injEq, Prod.mk.injEq, and_true]
        at hread
      obtain ⟨rfl, rfl⟩ := hread
      cases rs with
      | nil =>
        obtain ⟨out, hout, -⟩ := bind_eq_ok.1 ((List.mapM_cons ..).symm.trans houts)
        refine ⟨rfl, ?_⟩
        simpa using (r.output_returns_iff env).1 ⟨out, hout⟩
      | cons k rs =>
        rw [htext] at hserve
        have hunread := r.serve_unread env hserve
        rw [List.flatMap_cons, if_neg (List.append_ne_nil_of_left_ne_nil k.text_ne_nil _)] at hunread
        exact absurd hunread.symm (k.afterBody_text_ne_nil _)
    · rintro ⟨hone, hans⟩
      obtain rfl : rs = [] := List.eq_nil_of_length_eq_zero (Nat.succ.inj hone)
      obtain ⟨out, hout⟩ := (r.output_returns_iff env).2 (hans r List.mem_cons_self)
      obtain ⟨rest, hserve⟩ := (output_eq_ok r.text_ne_nil).1 hout
      have hunread := r.serve_unread env hserve
      rw [if_pos (hbody r List.mem_cons_self)] at hunread
      obtain rfl : rest = [] := hunread
      refine ⟨[out], ?_, ?_⟩
      · simp [hout]
      · simp [hserve]

theorem pipelining_iff_single :
    ∃ outs, [getRequest].mapM (fun r => output sampleEnv [r.text]) = .ok outs ∧
      transcript sampleEnv make [[getRequest].flatMap Request.text] = .ok [(outs.flatten, [])] :=
  (pipelining_iff sampleEnv [getRequest] (by simp) (by decide)).2
    ⟨rfl, by simpa using getRequest_answered⟩

/-- Two requests in one read: one response, and the headers of the second request stay unread. -/
theorem second_request_not_answered :
    ∃ out, output sampleEnv [getRequest.text] = .ok out ∧
      transcript sampleEnv make [getRequest.text ++ getRequest.text] =
        .ok [(out, str "Connection: keep-alive\r\n\r\n")] := by
  rw [output_eq sampleEnv (by decide), transcript_eq sampleEnv (by decide) make_wf, make_unread]
  refine ⟨_, rfl, rfl⟩

end HttpContext
