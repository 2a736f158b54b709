import AetherNode.Hops
import AetherNode.Forward
/-!
# What is served is what is read

The pages of `/gossip/messages` and `/gossip/deletions` and the inboxes of
`/fetch` are made of what `json.loads` makes of the stored texts. It is a
fixed point of printing and reading, so whoever reads a response reads the
value that was sent.
-/
open AetherNode.Lib AetherNode.Lib.Json AetherNode.Lib.JsonText AetherNode.Lib.JsonScan AetherNode.Lib.Reread
  AetherNode.Protocol AetherNode.Server AetherNode.Hops

namespace AetherNode.Served

/-! ## The GET handlers of the gossip side -/

section
variable (platform : Platform)

/-- `{"id": row[0], "payload": json.loads(row[1])}`. -/
def messageItem (r : Nat × Message) : Except LoadsError Json :=
  (readRow platform r.2).map fun v => .obj [(lit "id", .int r.1), (lit "payload", v)]

/-- The items of the rows, in their order. -/
def messageItems : List (Nat × Message) → Except LoadsError (List Json)
  | [] => .ok []
  | r :: rows =>
    match messageItem platform r with
    | .error e => .error e
    | .ok item => (messageItems rows).map (item :: ·)

/-- `{"<name>": items, "count": len(items)}`. -/
def page (name : Str) (items : List Json) : Json := .obj [(name, .arr items), (lit "count", .int items.length)]

/-- `GET /gossip/messages?since_id=...`. An integer above 63 bits does not bind. -/
def getMessages (sinceId : Nat) (s : State) : Ended :=
  if 2 ^ 63 ≤ sinceId then raises (.raised .overflowError)
  else
    match messageItems platform (Gossip.messageRows s.db sinceId) with
    | .error e => raises (.loads e)
    | .ok items => sendJson platform 200 (page (lit "messages") items)

/-- `GET /gossip/deletions?since_id=...`. -/
def getDeletions (sinceId : Nat) (s : State) : Ended :=
  if 2 ^ 63 ≤ sinceId then raises (.raised .overflowError)
  else
    sendJson platform 200 (page (lit "deletions") ((Gossip.deletionRows s.db sinceId).map fun r => .obj (Gossip.deletionItem r)))

end

/-! ## Values that are read as they are -/

/-- Printing and reading gives the value back. -/
def Fixed (v : Json) : Prop := reread v = v

theorem fixed_reread (v : Json) : Fixed (reread v) := reread_reread v

theorem fixed_int (z : Int) : Fixed (.int z) := rfl

theorem fixed_str {s : Str} (h : encodable s = true) : Fixed (.str s) :=
  congrArg Json.str (rejoin_of_joined (joined_of_encodable h))

theorem fixed_arr {l : List Json} (h : ∀ v ∈ l, Fixed v) : Fixed (.arr l) := by
  rw [Fixed, reread, rereadAll_eq_map]
  exact congrArg Json.arr ((List.map_congr_left h).trans (List.map_id l))

theorem fixed_obj {l : List (Str × Json)} (hkeys : (l.map Prod.fst).Nodup) (h : ∀ kv ∈ l, encodable kv.1 = true ∧ Fixed kv.2) :
    Fixed (.obj l) := by
  have hitems : rereadItems l = l := by
    rw [rereadItems_eq_map]
    refine (List.map_congr_left fun kv hkv => ?_).trans (List.map_id l)
    rw [rejoin_of_joined (joined_of_encodable (h kv hkv).1), (h kv hkv).2]
    rfl
  rw [Fixed, reread, hitems, dictOf_self hkeys]

theorem fixed_payload (p : Dict) : Fixed (.obj (hop p)) := fixed_reread (.obj p)

theorem fixed_page {name : Str} (hname : encodable name = true) (hne : name ≠ lit "count") {items : List Json}
    (h : ∀ v ∈ items, Fixed v) : Fixed (page name items) := by
  apply fixed_obj
  · simp only [List.map_cons, List.map_nil, List.nodup_cons, List.mem_singleton, List.not_mem_nil, not_false_eq_true,
      List.nodup_nil, and_true]
    exact hne
  · exact List.forall_mem_cons.2 ⟨⟨hname, fixed_arr h⟩, List.forall_mem_cons.2 ⟨⟨rfl, fixed_int _⟩, fun _ hkv => by cases hkv⟩⟩

/-! ## Numbers that are read -/

/-- Rowids and counts have few digits. -/
theorem digits_of_lt {n : Nat} (h : n < 2 ^ 63) : (natText n).length ≤ PyInt.maxStrDigits := by
  have hpow : 10 ^ 19 ≤ 10 ^ PyInt.maxStrDigits := Nat.pow_le_pow_right (by omega) (Nat.le_of_ble_eq_true rfl)
  have hlt : n < 10 ^ PyInt.maxStrDigits := Nat.lt_of_lt_of_le (by omega) hpow
  rw [natText, List.length_map]
  exact (Nat.length_toDigits_le_iff (by omega) (Nat.le_of_ble_eq_true rfl)).2 hlt

/-! ## How deep a value may be -/

mutual

theorem nest_le_of_readable {repr : FloatLiteral → Str} : ∀ (v : Json) (n : Nat), Readable repr v n → nest v ≤ n
  | .null, _, _ | .bool _, _, _ | .int _, _, _ | .float _, _, _ | .str _, _, _ => Nat.zero_le _
  | .arr l, n, h => by
    have hall := nestAll_le_of_readable l _ h.2
    have hpos := h.1
    rw [nest]
    omega
  | .obj l, n, h => by
    have hitems := nestItems_le_of_readable l _ h.2
    have hpos := h.1
    rw [nest]
    omega

theorem nestAll_le_of_readable {repr : FloatLiteral → Str} : ∀ (l : List Json) (n : Nat), ReadableAll repr l n → nestAll l ≤ n
  | [], _, _ => Nat.zero_le _
  | v :: l, n, h => max_le (nest_le_of_readable v n h.1) (nestAll_le_of_readable l n h.2)

theorem nestItems_le_of_readable {repr : FloatLiteral → Str} : ∀ (l : List (Str × Json)) (n : Nat), ReadableItems repr l n →
    nestItems l ≤ n
  | [], _, _ => Nat.zero_le _
  | (_, v) :: l, n, h => max_le (nest_le_of_readable v n h.2.1) (nestItems_le_of_readable l n h.2.2)

end

mutual

theorem readable_of_nest_le {repr : FloatLiteral → Str} : ∀ (v : Json) {n m : Nat}, Readable repr v n → nest v ≤ m → Readable repr v m
  | .null, _, _, h, _ | .bool _, _, _, h, _ | .int _, _, _, h, _ | .float _, _, _, h, _ | .str _, _, _, h, _ => h
  | .arr l, n, m, h, hm => by
    rw [nest] at hm
    exact ⟨by omega, readableAll_of_nest_le l h.2 (by omega)⟩
  | .obj l, n, m, h, hm => by
    rw [nest] at hm
    exact ⟨by omega, readableItems_of_nest_le l h.2 (by omega)⟩

theorem readableAll_of_nest_le {repr : FloatLiteral → Str} : ∀ (l : List Json) {n m : Nat}, ReadableAll repr l n → nestAll l ≤ m →
    ReadableAll repr l m
  | [], _, _, _, _ => trivial
  | v :: l, _, _, h, hm =>
    ⟨readable_of_nest_le v h.1 (le_trans (le_max_left _ _) hm), readableAll_of_nest_le l h.2 (le_trans (le_max_right _ _) hm)⟩

theorem readableItems_of_nest_le {repr : FloatLiteral → Str} : ∀ (l : List (Str × Json)) {n m : Nat}, ReadableItems repr l n →
    nestItems l ≤ m → ReadableItems repr l m
  | [], _, _, _, _ => trivial
  | (_, v) :: l, _, _, h, hm =>
    ⟨h.1, readable_of_nest_le v h.2.1 (le_trans (le_max_left _ _) hm), readableItems_of_nest_le l h.2.2 (le_trans (le_max_right _ _) hm)⟩

end

/-- What can be read somewhere can be read wherever it is not too deep. -/
theorem readable_iff_nest {repr : FloatLiteral → Str} {v : Json} {n m : Nat} (h : Readable repr v n) :
    Readable repr v m ↔ nest v ≤ m :=
  ⟨nest_le_of_readable v m, readable_of_nest_le v h⟩

/-! ## Rows -/

section
variable {platform : Platform} {m : Message} {n : Nat}

/-- A row whose payload has been read is read again. -/
theorem readRow_eq (h : Readable platform.decoder.repr (.obj m.payload) platform.decoder.nesting) :
    readRow platform m = .ok (.obj (hop m.payload)) := loads_dumps h

/-- What is served of a row. -/
def hopItem (r : Nat × Message) : Dict := [(lit "id", .int r.1), (lit "payload", .obj (hop r.2.payload))]

theorem messageItems_eq {rows : List (Nat × Message)}
    (h : ∀ r ∈ rows, Readable platform.decoder.repr (.obj r.2.payload) platform.decoder.nesting) :
    messageItems platform rows = .ok (rows.map fun r => .obj (hopItem r)) := by
  induction rows with
  | nil => rfl
  | cons r rows ih =>
    obtain ⟨hr, hrows⟩ := List.forall_mem_cons.1 h
    have hitem : messageItem platform r = .ok (.obj (hopItem r)) := by
      rw [messageItem, readRow_eq hr]
      rfl
    rw [messageItems, hitem, ih hrows]
    rfl

theorem fixed_hopItem (r : Nat × Message) : Fixed (.obj (hopItem r)) := by
  apply fixed_obj
  · exact List.nodup_cons.2 ⟨by simp [lit], List.nodup_singleton _⟩
  · exact List.forall_mem_cons.2 ⟨⟨rfl, fixed_int _⟩,
      List.forall_mem_cons.2 ⟨⟨rfl, fixed_payload r.2.payload⟩, fun _ hkv => by cases hkv⟩⟩

end

/-! ## Pages -/

/-- A printed value that is fixed is read back exactly when it can be read. -/
theorem loads_fixed_iff {dec : Decoder} (hrepr : Stable dec.repr) (hascii : ReadsAscii dec) {v : Json} (hv : Fixed v) {n : Nat}
    (hread : Readable dec.repr v n) :
    loads dec (encode (dumpsDefault v)) = .ok v ↔ Readable dec.repr v dec.nesting := by
  rw [loads_encode_dumps hascii hread]
  constructor
  · intro h
    refine readable_of_loadsText hrepr (fun c hc => ?_) h
    exact Nat.lt_of_le_of_lt (printable_dumps v n hread c hc).2 (Nat.le_of_ble_eq_true rfl)
  · intro h
    rw [loads_dumps h, hv]

section
variable {platform : Platform} {repr : FloatLiteral → Str}

/-- A page can be read where its items can, two levels further in. -/
theorem readable_page_iff {name : Str} (hname : CodePoints name) {items : List Json} (hcount : items.length < 2 ^ 63) {n : Nat} :
    Readable repr (page name items) (n + 2) ↔ ∀ v ∈ items, Readable repr v n := by
  have hdigits := digits_of_lt hcount
  have hcode : CodePoints (lit "count") := by simp [CodePoints, lit]
  simp [page, Readable, ReadableItems, hname, hcode, hdigits, readableAll_iff]

/-- The item of a row can be read where its payload can, one level further in. -/
theorem readable_hopItem_iff {r : Nat × Message} (hid : r.1 < 2 ^ 63) {n : Nat} :
    Readable repr (.obj (hopItem r)) (n + 1) ↔ Readable repr (.obj (hop r.2.payload)) n := by
  have hdigits := digits_of_lt hid
  have hcode : CodePoints (lit "id") ∧ CodePoints (lit "payload") := by simp [CodePoints, lit]
  simp [hopItem, Readable, ReadableItems, hcode, hdigits]

theorem nest_page_le {name : Str} {items : List Json} {n : Nat} (hn : 2 ≤ n) :
    nest (page name items) ≤ n ↔ ∀ v ∈ items, nest v + 2 ≤ n := by
  have hnest : nest (page name items) = nestAll items + 2 := by simp [page, nest, nestItems]
  rw [hnest, ← Nat.le_sub_iff_add_le hn, nestAll_le]
  exact forall₂_congr fun v _ => Nat.le_sub_iff_add_le hn

theorem nest_hopItem (r : Nat × Message) : nest (.obj (hopItem r)) = nest (.obj (hop r.2.payload)) + 1 := by
  simp [hopItem, nest, nestItems]

end

/-- A response with this body is sent, and the bytes of it are read as the body. -/
def Arrives (platform : Platform) (e : Ended) (body : Json) : Prop :=
  e = ⟨[⟨200, body⟩], none⟩ ∧ loads platform.decoder (encode (dumpsDefault body)) = .ok body

section
variable {platform : Platform}

/-- Items that have been read arrive in their page exactly when they have two levels to spare, at the encoder of the one
side and the decoder of the other. -/
theorem page_arrives_iff (hrepr : Stable platform.decoder.repr) (hascii : ReadsAscii platform.decoder)
    (hnesting : 2 ≤ platform.decoder.nesting) {name : Str} (hname : encodable name = true) (hpoints : CodePoints name)
    (hne : name ≠ lit "count") {items : List Json} (hcount : items.length < 2 ^ 63) (hfixed : ∀ v ∈ items, Fixed v) {n : Nat}
    (hread : ∀ v ∈ items, Readable platform.decoder.repr v n) :
    Arrives platform (sendJson platform 200 (page name items)) (page name items) ↔
      ∀ v ∈ items, nest v + 2 ≤ platform.encoderNesting ∧ nest v + 2 ≤ platform.decoder.nesting := by
  have hsent : sendJson platform 200 (page name items) = ⟨[⟨200, page name items⟩], none⟩ ↔
      ∀ v ∈ items, nest v + 2 ≤ platform.encoderNesting := by
    rw [← nest_page_le platform.encodes_two, sendJson]
    split
    · rename_i hle
      exact iff_of_true rfl hle
    · rename_i hle
      exact iff_of_false (fun h => by cases h) hle
  have hloads : loads platform.decoder (encode (dumpsDefault (page name items))) = .ok (page name items) ↔
      ∀ v ∈ items, nest v + 2 ≤ platform.decoder.nesting := by
    have hpage := (readable_page_iff hpoints hcount).2 hread
    rw [loads_fixed_iff hrepr hascii (fixed_page hname hne hfixed) hpage, readable_iff_nest hpage, nest_page_le hnesting]
  rw [Arrives, hsent, hloads]
  exact ⟨fun h v hv => ⟨h.1 v hv, h.2 v hv⟩, fun h => ⟨fun v hv => (h v hv).1, fun v hv => (h v hv).2⟩⟩

end

theorem messages_name : encodable (lit "messages") = true ∧ CodePoints (lit "messages") ∧ lit "messages" ≠ lit "count" :=
  ⟨rfl, by simp [CodePoints, lit], by simp [lit]⟩

theorem deletions_name : encodable (lit "deletions") = true ∧ CodePoints (lit "deletions") ∧ lit "deletions" ≠ lit "count" :=
  ⟨rfl, by simp [CodePoints, lit], by simp [lit]⟩

/-- A payload has so many levels to spare when it is printed and when it is read. -/
def Spares (platform : Platform) (levels : Nat) (p : Dict) : Prop :=
  nest (.obj (hop p)) + levels ≤ platform.encoderNesting ∧ nest (.obj (hop p)) + levels ≤ platform.decoder.nesting

/-- The payloads of these rows have been read by a relay. -/
def Heard (platform : Platform) (rows : List Message) : Prop :=
  ∀ m ∈ rows, Readable platform.decoder.repr (.obj m.payload) platform.decoder.nesting

section
variable {platform : Platform} {s : State}

/-- The page of the messages that a relay makes of what it has read. -/
def messagesPage (s : State) (sinceId : Nat) : Json :=
  page (lit "messages") ((Gossip.messageRows s.db sinceId).map fun r => .obj (hopItem r))

theorem length_messageRows (db : Db) (sinceId : Nat) : (Gossip.messageRows db sinceId).length < 2 ^ 63 :=
  Nat.lt_of_le_of_lt (List.length_take_le _ _) (Nat.le_of_ble_eq_true rfl)

theorem readable_hopItems (hrepr : Stable platform.decoder.repr) (hseq : s.db.messages.seq < 2 ^ 63)
    (hheard : Heard platform (s.db.messages.rows.map Prod.snd)) (sinceId : Nat) :
    ∀ v ∈ (Gossip.messageRows s.db sinceId).map (fun r => Json.obj (hopItem r)),
      Readable platform.decoder.repr v (platform.decoder.nesting + 1) := by
  refine List.forall_mem_map.2 fun r hr => ?_
  have hmem := (Gossip.mem_of_pageRows hr).1
  have hid := Nat.lt_of_le_of_lt (s.db.messages.bounded r hmem) hseq
  exact (readable_hopItem_iff hid).2 (readable_reread hrepr (hheard r.2 (List.mem_map_of_mem hmem)))

theorem getMessages_eq (hheard : Heard platform (s.db.messages.rows.map Prod.snd)) {sinceId : Nat} (hbinds : sinceId < 2 ^ 63) :
    getMessages platform sinceId s = sendJson platform 200 (messagesPage s sinceId) := by
  have hread : ∀ r ∈ Gossip.messageRows s.db sinceId,
      Readable platform.decoder.repr (.obj r.2.payload) platform.decoder.nesting := fun r hr =>
    hheard r.2 (List.mem_map_of_mem (Gossip.mem_of_pageRows hr).1)
  rw [getMessages, if_neg (Nat.not_le.2 hbinds), messageItems_eq hread]
  rfl

theorem getMessages_unbound {sinceId : Nat} (h : ¬ sinceId < 2 ^ 63) :
    getMessages platform sinceId s = raises (.raised .overflowError) := if_pos (Nat.not_lt.1 h)

/-- Rows that are read as they were printed make the body of the page. -/
theorem dumps_messagesPage {sinceId : Nat} (h : ∀ r ∈ Gossip.messageRows s.db sinceId, hop r.2.payload = r.2.payload) :
    dumpsDefault (messagesPage s sinceId) = Gossip.messagesBody s.db sinceId := by
  have hitems : (Gossip.messageRows s.db sinceId).map (fun r => Json.obj (hopItem r)) =
      ((Gossip.messageRows s.db sinceId).map Gossip.messageItem).map .obj := by
    rw [List.map_map]
    refine List.map_congr_left fun r hr => ?_
    rw [hopItem, h r hr]
    rfl
  rw [messagesPage, hitems, Gossip.messagesBody, Gossip.pageBody, page, List.length_map]

/-- Whatever a page of messages is read as, it is the page. -/
theorem eq_messagesPage (hrepr : Stable platform.decoder.repr) (hascii : ReadsAscii platform.decoder)
    (hseq : s.db.messages.seq < 2 ^ 63) (hheard : Heard platform (s.db.messages.rows.map Prod.snd)) {sinceId : Nat} {v : Json}
    (h : loads platform.decoder (encode (dumpsDefault (messagesPage s sinceId))) = .ok v) : v = messagesPage s sinceId := by
  have hname : CodePoints (lit "messages") := by simp [CodePoints, lit]
  have hcount : ((Gossip.messageRows s.db sinceId).map fun r => Json.obj (hopItem r)).length < 2 ^ 63 := by
    rw [List.length_map]
    exact length_messageRows s.db sinceId
  have hpage := (readable_page_iff hname hcount).2 (readable_hopItems hrepr hseq hheard sinceId)
  have hfixed : Fixed (messagesPage s sinceId) := fixed_page rfl (by simp [lit]) (List.forall_mem_map.2 fun r _ => fixed_hopItem r)
  rw [messagesPage, loads_encode_dumps hascii hpage] at h
  exact (eq_reread_of_loadsText hpage h).trans hfixed

/-- A page of messages is answered and arrives exactly when its `since_id` binds and each of its payloads has three levels
to spare. -/
theorem messages_arrive_iff (hrepr : Stable platform.decoder.repr) (hascii : ReadsAscii platform.decoder)
    (hnesting : 2 < platform.decoder.nesting) (hseq : s.db.messages.seq < 2 ^ 63)
    (hheard : Heard platform (s.db.messages.rows.map Prod.snd)) (sinceId : Nat) :
    Arrives platform (getMessages platform sinceId s) (messagesPage s sinceId) ↔
      sinceId < 2 ^ 63 ∧ ∀ r ∈ Gossip.messageRows s.db sinceId, Spares platform 3 r.2.payload := by
  by_cases hbinds : sinceId < 2 ^ 63
  swap
  · rw [getMessages_unbound hbinds]
    exact iff_of_false (fun h => by cases h.1) fun h => hbinds h.1
  have hlength : ((Gossip.messageRows s.db sinceId).map fun r => Json.obj (hopItem r)).length < 2 ^ 63 := by
    simpa using length_messageRows s.db sinceId
  have hitems := page_arrives_iff hrepr hascii (Nat.le_of_lt hnesting) messages_name.1 messages_name.2.1 messages_name.2.2 hlength
    (List.forall_mem_map.2 fun r _ => fixed_hopItem r) (readable_hopItems hrepr hseq hheard sinceId)
  rw [getMessages_eq hheard hbinds, messagesPage, hitems, List.forall_mem_map, and_iff_right hbinds]
  refine forall₂_congr fun r _ => ?_
  rw [nest_hopItem, Spares]

end

/-! ## Tombstones -/

/-- A text of characters that are no surrogates. -/
def IsText (s : Str) : Prop := encodable s = true ∧ CodePoints s

theorem IsText.of_ascii {s : Str} (h : ∀ c ∈ s, c < 128) : IsText s := by
  refine ⟨List.all_eq_true.2 fun c hc => ?_, fun c hc => by have := h c hc; omega⟩
  have hlt := h c hc
  simp only [isSurrogate, Bool.not_eq_true', Bool.and_eq_false_iff, decide_eq_false_iff_not]
  omega

theorem IsText.of_printable {s : Str} (h : Printable s) : IsText s := .of_ascii fun c hc => by have := h c hc; omega

theorem isText_of_b64decode {s : Str} {b : Bytes} (h : b64decode s = some b) : IsText s := .of_ascii (ascii_of_b64decode h)

theorem isText_isoformat (t : Datetime) : IsText t.isoformat := by
  have hpad : ∀ w n, Printable (pad w n) := fun w n =>
    printable_of_all (all_pad (fun d hd => by simp only [Bool.and_eq_true, Nat.ble_eq]; omega) w n)
  have hsep : ∀ s ∈ [lit "-", lit ":", lit "T", lit ".", lit "+00:00"], Printable s := by
    simp only [List.forall_mem_cons, List.not_mem_nil, false_implies, implies_true, and_true]
    exact ⟨printable_of_all rfl, printable_of_all rfl, printable_of_all rfl, printable_of_all rfl, printable_of_all rfl⟩
  simp only [List.forall_mem_cons, List.not_mem_nil, false_implies, implies_true, and_true] at hsep
  obtain ⟨hdash, hcolon, ht, hdot, hzone⟩ := hsep
  have hfraction : Printable t.fractionText := by
    unfold Datetime.fractionText
    split
    · exact printable_nil
    · exact hdot.append (hpad _ _)
  have hdate : Printable t.dateText := (((hpad _ _).append hdash).append (hpad _ _)).append hdash |>.append (hpad _ _)
  have htime : Printable t.timeText := (((hpad _ _).append hcolon).append (hpad _ _)).append hcolon |>.append (hpad _ _)
  exact .of_printable ((((hdate.append ht).append htime).append hfraction).append hzone)

/-- The columns of a tombstone are texts. -/
structure TextRow (r : DeletionRequest) : Prop where
  targetSignature : IsText r.targetSignature
  requesterPubkey : IsText r.requesterPubkey
  requesterRecipientId : IsText r.requesterRecipientId
  requestedAt : IsText r.requestedAt

section
variable {platform : Platform} {s : State} {repr : FloatLiteral → Str}

theorem fixed_deletionItem {r : Nat × DeletionRequest} (h : TextRow r.2) : Fixed (.obj (Gossip.deletionItem r)) := by
  apply fixed_obj
  · simp [Gossip.deletionItem, lit]
  · simp only [Gossip.deletionItem, List.forall_mem_cons, List.not_mem_nil, false_implies, implies_true, and_true]
    exact ⟨⟨rfl, fixed_int _⟩, ⟨rfl, fixed_str h.targetSignature.1⟩, ⟨rfl, fixed_str h.requesterPubkey.1⟩,
      ⟨rfl, fixed_str h.requesterRecipientId.1⟩, rfl, fixed_str h.requestedAt.1⟩

theorem readable_deletionItem {r : Nat × DeletionRequest} (hid : r.1 < 2 ^ 63) (h : TextRow r.2) (n : Nat) :
    Readable repr (.obj (Gossip.deletionItem r)) (n + 1) := by
  have hdigits := digits_of_lt hid
  have hcode : ∀ name ∈ [lit "id", lit "target_signature", lit "requester_pubkey", lit "requester_recipient_id", lit "requested_at"],
      CodePoints name := by simp [CodePoints, lit]
  simp only [List.forall_mem_cons] at hcode
  simp [Gossip.deletionItem, Readable, ReadableItems, hcode, hdigits, h.targetSignature.2, h.requesterPubkey.2,
    h.requesterRecipientId.2, h.requestedAt.2]

/-- The page of the tombstones. -/
def deletionsPage (s : State) (sinceId : Nat) : Json :=
  page (lit "deletions") ((Gossip.deletionRows s.db sinceId).map fun r => .obj (Gossip.deletionItem r))

theorem dumps_deletionsPage (s : State) (sinceId : Nat) :
    dumpsDefault (deletionsPage s sinceId) = Gossip.deletionsBody s.db sinceId := by
  have hitems : (Gossip.deletionRows s.db sinceId).map (fun r => Json.obj (Gossip.deletionItem r)) =
      ((Gossip.deletionRows s.db sinceId).map Gossip.deletionItem).map .obj := by rw [List.map_map]; rfl
  rw [deletionsPage, hitems, Gossip.deletionsBody, Gossip.pageBody, page, List.length_map]

theorem deletionRows_text (hseq : s.db.deletionRequests.seq < 2 ^ 63)
    (htexts : ∀ r ∈ s.db.deletionRequests.rows, r.2.confirmed = true → TextRow r.2) (sinceId : Nat) :
    ∀ r ∈ Gossip.deletionRows s.db sinceId, r.1 < 2 ^ 63 ∧ TextRow r.2 := fun r hr =>
  have hmem := Gossip.mem_of_pageRows hr
  ⟨Nat.lt_of_le_of_lt (s.db.deletionRequests.bounded r hmem.1) hseq, htexts r hmem.1 hmem.2.2⟩

theorem getDeletions_eq {sinceId : Nat} (hbinds : sinceId < 2 ^ 63) :
    getDeletions platform sinceId s = sendJson platform 200 (deletionsPage s sinceId) := if_neg (Nat.not_le.2 hbinds)

theorem getDeletions_unbound {sinceId : Nat} (h : ¬ sinceId < 2 ^ 63) :
    getDeletions platform sinceId s = raises (.raised .overflowError) := if_pos (Nat.not_lt.1 h)

/-- A page of tombstones is answered and arrives whenever its `since_id` binds. -/
theorem deletions_arrive_iff (hrepr : Stable platform.decoder.repr) (hascii : ReadsAscii platform.decoder)
    (hnesting : 2 < platform.decoder.nesting) (hencoder : 2 < platform.encoderNesting) (hseq : s.db.deletionRequests.seq < 2 ^ 63)
    (htexts : ∀ r ∈ s.db.deletionRequests.rows, r.2.confirmed = true → TextRow r.2) (sinceId : Nat) :
    Arrives platform (getDeletions platform sinceId s) (deletionsPage s sinceId) ↔ sinceId < 2 ^ 63 := by
  by_cases hbinds : sinceId < 2 ^ 63
  swap
  · rw [getDeletions_unbound hbinds]
    exact iff_of_false (fun h => by cases h.1) hbinds
  have hrows := deletionRows_text hseq htexts sinceId
  have hlength : (Gossip.deletionRows s.db sinceId).length < 2 ^ 63 :=
    Nat.lt_of_le_of_lt (List.length_take_le _ _) (Nat.le_of_ble_eq_true rfl)
  have hcount : ((Gossip.deletionRows s.db sinceId).map fun r => Json.obj (Gossip.deletionItem r)).length < 2 ^ 63 := by
    simpa using hlength
  have hitems := page_arrives_iff hrepr hascii (Nat.le_of_lt hnesting) deletions_name.1 deletions_name.2.1 deletions_name.2.2 hcount
    (List.forall_mem_map.2 fun r hr => fixed_deletionItem (hrows r hr).2)
    (n := platform.decoder.nesting + 1) (List.forall_mem_map.2 fun r hr => readable_deletionItem (hrows r hr).1 (hrows r hr).2 _)
  rw [getDeletions_eq hbinds, deletionsPage, hitems, List.forall_mem_map]
  refine iff_of_true (fun r _ => ?_) hbinds
  have hnest : nest (.obj (Gossip.deletionItem r)) = 1 := rfl
  omega

end

end AetherNode.Served
