import MenuPages.Proofs.Text.Bytes
import MenuPages.Template.Render

/-!
# What a sink receives

A sink takes of each offer as much as it likes, and nothing once it is full. What it has in the end
does not depend on its choices. `Sink.deliver` says what that is, without offers and without
choices: the first bytes of what was to be written, as many as there is room for, and a failure if
that is not all of them.

**The law** (`Template.renderTo_delivered`): writing a page to a sink that takes something of every
offer while it has room comes to the delivery of the page. Each way of writing is such a delivery:
that of plain bytes (`Sink.writeAll_eq_deliver`), that of a value, which is escaped byte by byte on
its way (`Sink.writeEscaped_eq_deliver`), and that of one piece after the other
(`Sink.writePieces_eq_deliver`). What carries all three is that a delivery may be cut anywhere
(`Sink.deliver_append`). That escaping byte by byte is escaping character by character
(`Sink.escapeBytes_encode`) rests on UTF-8: no byte of a character beyond ASCII is one of the five
that are escaped.
-/

namespace MenuPages

/-! ## Escaping byte by byte -/

/-- Only characters of ASCII have an entity. -/
theorem Markup.entity?_of_le {c : Char} (h : 128 ≤ c.toNat) : Markup.entity? c = none := by
  unfold Markup.entity?
  split
  case h_6 => rfl
  all_goals exact absurd h (by decide)

namespace Sink

/-- A byte as it stands in markup. -/
def escapeByte (b : UInt8) : List UInt8 := (entityBytes? b).getD [b]

/-- Bytes as they stand in markup. -/
def escapeBytes (bytes : List UInt8) : List UInt8 := bytes.flatMap escapeByte

theorem escapeBytes_append (a b : List UInt8) :
    escapeBytes (a ++ b) = escapeBytes a ++ escapeBytes b := List.flatMap_append

/-- Bytes that need no escaping stay as they are. -/
theorem escapeBytes_eq_self {bytes : List UInt8} (h : ∀ b ∈ bytes, entityBytes? b = none) :
    escapeBytes bytes = bytes := by
  induction bytes with
  | nil => rfl
  | cons b bytes ih =>
    have hb : escapeByte b = [b] := by rw [escapeByte, h b List.mem_cons_self, Option.getD_none]
    have hbytes : bytes.flatMap escapeByte = bytes :=
      ih fun b' hb' => h b' (List.mem_cons_of_mem b hb')
    rw [escapeBytes, List.flatMap_cons, hb, hbytes, List.singleton_append]

/-- The bytes of a character, escaped one by one, are those of the escaped character. -/
theorem escapeBytes_utf8EncodeChar (c : Char) :
    escapeBytes (String.utf8EncodeChar c) = Text.encode (Markup.escapeChar c) := by
  by_cases hc : c.toNat < 128
  · have hbyte : Char.ofNat (UInt8.ofNat c.toNat).toNat = c := by
      rw [UInt8.toNat_ofNat', Nat.mod_eq_of_lt (by omega), Char.ofNat_toNat]
    rw [Text.utf8EncodeChar_of_lt hc, Markup.escapeChar]
    simp only [escapeBytes, List.flatMap_cons, List.flatMap_nil, List.append_nil, escapeByte,
      entityBytes?, hbyte]
    cases Markup.entity? c with
    | some entity => rfl
    | none => simp [Text.encode, Text.utf8EncodeChar_of_lt hc]
  · have hc : 128 ≤ c.toNat := Nat.le_of_not_lt hc
    have hclean : ∀ b ∈ String.utf8EncodeChar c, entityBytes? b = none := by
      intro b hb
      have hle := Text.le_toNat_of_mem_utf8EncodeChar hc b hb
      have hlt := b.toNat_lt
      have hcode : (Char.ofNat b.toNat).toNat = b.toNat := by
        rw [Char.ofNat, dif_pos (Or.inl (by omega))]
        rfl
      rw [entityBytes?, Markup.entity?_of_le (by omega), Option.map_none]
    rw [escapeBytes_eq_self hclean, Markup.escapeChar, Markup.entity?_of_le hc]
    simp [Text.encode]

/-- **Escaping byte by byte** is escaping character by character. -/
theorem escapeBytes_encode (s : Text) :
    escapeBytes (Text.encode s) = Text.encode (Markup.escape s) := by
  induction s with
  | nil => rfl
  | cons c s ih =>
    rw [Text.encode_cons, escapeBytes_append, escapeBytes_utf8EncodeChar, ih, Markup.escape_cons,
      Text.encode_append]

/-! ## Deliveries -/

/-- How many bytes a sink still has room for. -/
def free (k : Sink) : Nat := k.room - k.received.length

/-- The sink with more bytes received. -/
def extend (k : Sink) (bytes : List UInt8) : Sink := { k with received := k.received ++ bytes }

/-- What it comes to if bytes are written to a sink: it receives as many of them as it has room for,
and it is a failure if these are not all. -/
def deliver (k : Sink) (bytes : List UInt8) : Except WriteFailure Unit × Sink :=
  (if bytes.length ≤ k.free then .ok () else .error .nothingTaken, k.extend (bytes.take k.free))

/-- A sink that takes something of every offer, as far as its room goes. -/
def Willing (k : Sink) : Prop := ∀ received offer, offer ≠ [] → 0 < k.portion received offer

theorem extend_nil (k : Sink) : k.extend [] = k := by simp [extend]

theorem extend_extend (k : Sink) (a b : List UInt8) :
    (k.extend a).extend b = k.extend (a ++ b) := by simp [extend]

theorem free_extend (k : Sink) (bytes : List UInt8) :
    (k.extend bytes).free = k.free - bytes.length := by
  simp [free, extend, Nat.sub_add_eq]

theorem Willing.extend {k : Sink} (hk : k.Willing) (bytes : List UInt8) :
    (k.extend bytes).Willing := hk

theorem Willing.of_deliver {k more : Sink} {bytes : List UInt8} {r : Except WriteFailure Unit}
    (hk : k.Willing) (h : k.deliver bytes = (r, more)) : more.Willing := by
  have hmore : more = k.extend (bytes.take k.free) := (congrArg Prod.snd h).symm
  rw [hmore]
  exact hk.extend _

theorem deliver_nil (k : Sink) : k.deliver [] = (.ok (), k) := by
  simp [deliver, extend_nil]

/-- A full sink receives nothing. -/
theorem deliver_of_free_eq_zero {k : Sink} (hfree : k.free = 0) {bytes : List UInt8}
    (hne : bytes ≠ []) : k.deliver bytes = (.error .nothingTaken, k) := by
  rw [deliver, hfree, if_neg (by simpa using hne), List.take_zero, extend_nil]

/-- What there is room for is received, and then the rest is delivered. -/
theorem deliver_append_of_le {k : Sink} {a : List UInt8} (h : a.length ≤ k.free)
    (b : List UInt8) : k.deliver (a ++ b) = (k.extend a).deliver b := by
  have hlength : (a ++ b).length ≤ k.free ↔ b.length ≤ k.free - a.length := by
    rw [List.length_append]
    omega
  rw [deliver, deliver, free_extend, extend_extend, List.take_append, List.take_of_length_le h]
  simp only [hlength]

/-- **A delivery may be cut anywhere**: the second part is delivered if the first one is received as
a whole. -/
theorem deliver_append (k : Sink) (a b : List UInt8) :
    k.deliver (a ++ b) =
      match k.deliver a with
      | (.error e, k) => (.error e, k)
      | (.ok (), k) => k.deliver b := by
  by_cases h : a.length ≤ k.free
  · have hfirst : k.deliver a = (.ok (), k.extend a) := by
      rw [deliver, if_pos h, List.take_of_length_le h]
    rw [hfirst, deliver_append_of_le h]
  · have hfirst : k.deliver a = (.error .nothingTaken, k.extend (a.take k.free)) := by
      rw [deliver, if_neg h]
    have hlonger : ¬ (a ++ b).length ≤ k.free := by
      rw [List.length_append]
      omega
    rw [hfirst, deliver, if_neg hlonger, List.take_append_of_le_length (by omega)]

/-! ## Offers -/

variable {k : Sink} {offer : List UInt8}

theorem taken_le_length (k : Sink) (offer : List UInt8) : k.taken offer ≤ offer.length := by
  rw [taken]
  omega

theorem taken_le_free (k : Sink) (offer : List UInt8) : k.taken offer ≤ k.free := by
  rw [taken, free]
  omega

/-- A willing sink takes nothing only if it is full. -/
theorem Willing.free_eq_zero (hk : k.Willing) (hne : offer ≠ []) (htaken : k.taken offer = 0) :
    k.free = 0 := by
  have hportion := hk k.received offer hne
  have hlength := List.length_pos_iff.2 hne
  rw [taken] at htaken
  rw [free]
  omega

/-- What is taken of an offer is delivered, and then the rest. -/
theorem deliver_accept (k : Sink) (offer behind : List UInt8) :
    (k.accept offer).deliver behind = k.deliver (offer.take (k.taken offer) ++ behind) := by
  have hle : (offer.take (k.taken offer)).length ≤ k.free :=
    Nat.le_trans (List.length_take_le ..) (k.taken_le_free offer)
  rw [deliver_append_of_le hle]
  rfl

/-! ## Writing is delivering -/

/-- Bytes that are offered until all are taken are delivered. -/
theorem writeAll_eq_deliver (hk : k.Willing) (bytes : List UInt8) :
    k.writeAll bytes = k.deliver bytes := by
  fun_induction writeAll k bytes with
  | case1 k => exact k.deliver_nil.symm
  | case2 k b bytes htaken =>
    have hne : b :: bytes ≠ [] := List.cons_ne_nil _ _
    exact (deliver_of_free_eq_zero (hk.free_eq_zero hne htaken) hne).symm
  | case3 k b bytes htaken ih =>
    rw [ih (hk.extend _), deliver_accept, List.take_append_drop]

/-- What is taken of a clean run is what there is in front, and it needs no escaping. -/
theorem escapeBytes_eq_take_cleanRun_append (bytes : List UInt8) {n : Nat}
    (hn : n ≤ (cleanRun bytes).length) :
    escapeBytes bytes = (cleanRun bytes).take n ++ escapeBytes (bytes.drop n) := by
  have hclean : ∀ b ∈ (cleanRun bytes).take n, entityBytes? b = none := by
    intro b hb
    have hall := List.all_eq_true.1 List.all_takeWhile b (List.mem_of_mem_take hb)
    simpa using hall
  have hsplit : bytes = cleanRun bytes ++ bytes.dropWhile fun b => (entityBytes? b).isNone :=
    List.takeWhile_append_dropWhile.symm
  have htake : bytes.take n = (cleanRun bytes).take n := by
    conv => lhs; rw [hsplit]
    exact List.take_append_of_le_length hn
  calc escapeBytes bytes = escapeBytes (bytes.take n ++ bytes.drop n) := by
        rw [List.take_append_drop]
    _ = (cleanRun bytes).take n ++ escapeBytes (bytes.drop n) := by
        rw [escapeBytes_append, htake, escapeBytes_eq_self hclean]

/-- Bytes that are offered in escaped form until all are taken are delivered in escaped form. -/
theorem writeEscaped_eq_deliver (hk : k.Willing) (bytes : List UInt8) :
    k.writeEscaped bytes = k.deliver (escapeBytes bytes) := by
  have hentity {b : UInt8} {entity : List UInt8} (h : entityBytes? b = some entity)
      (bytes : List UInt8) : escapeBytes (b :: bytes) = entity ++ escapeBytes bytes := by
    rw [escapeBytes, List.flatMap_cons, escapeByte, h]
    rfl
  fun_induction writeEscaped k bytes with
  | case1 k => exact k.deliver_nil.symm
  | case2 k b bytes entity h e full hwrite =>
    rw [writeAll_eq_deliver hk] at hwrite
    rw [hentity h, deliver_append, hwrite]
  | case3 k b bytes entity h more hwrite ih =>
    rw [writeAll_eq_deliver hk] at hwrite
    rw [hentity h, deliver_append, hwrite]
    exact ih (hk.of_deliver hwrite)
  | case4 k b bytes h htaken =>
    have hrun : cleanRun (b :: bytes) ≠ [] := by
      rw [cleanRun, List.takeWhile_cons_of_pos (by simp [h])]
      exact List.cons_ne_nil _ _
    have hescaped : escapeBytes (b :: bytes) ≠ [] := by
      rw [escapeBytes, List.flatMap_cons, escapeByte, h]
      exact List.cons_ne_nil _ _
    exact (deliver_of_free_eq_zero (hk.free_eq_zero hrun htaken) hescaped).symm
  | case5 k b bytes h htaken ih =>
    rw [ih (hk.extend _), deliver_accept,
      ← escapeBytes_eq_take_cleanRun_append _ (k.taken_le_length _)]

/-- A piece is delivered. -/
theorem writePiece_eq_deliver (hk : k.Willing) (p : Piece) :
    k.writePiece p = k.deliver (Text.encode p.text) := by
  cases p with
  | markup s => exact writeAll_eq_deliver hk _
  | value s =>
    rw [writePiece, writeEscaped_eq_deliver hk, escapeBytes_encode]
    rfl

/-- Pieces that are written one after the other are delivered as a whole. -/
theorem writePieces_eq_deliver (hk : k.Willing) (pieces : List Piece) :
    k.writePieces pieces = k.deliver (Text.encode (Piece.textAll pieces)) := by
  induction pieces generalizing k with
  | nil => exact k.deliver_nil.symm
  | cons p pieces ih =>
    have htext : Piece.textAll (p :: pieces) = p.text ++ Piece.textAll pieces := List.flatMap_cons
    rw [writePieces, htext, Text.encode_append, deliver_append, writePiece_eq_deliver hk]
    cases hfirst : k.deliver (Text.encode p.text) with
    | mk result more =>
      cases result with
      | error e => rfl
      | ok => exact ih (hk.of_deliver hfirst)

/-- Writing these bytes to a sink with room for `room` bytes came to this: the sink has the first of
the bytes, as many as there is room for, and it was a failure if and only if these are not all. -/
structure Delivered (room : Nat) (bytes : List UInt8)
    (written : Except WriteFailure Unit × Sink) : Prop where
  received_eq : written.2.received = bytes.take (min room bytes.length)
  error_iff : written.1 = .error .nothingTaken ↔ room < bytes.length
  ok_iff : written.1 = .ok () ↔ bytes.length ≤ room

theorem delivered_deliver (room : Nat) (portion : List UInt8 → List UInt8 → Nat)
    (bytes : List UInt8) : Delivered room bytes (deliver { room, portion } bytes) := by
  refine ⟨?_, ?_, ?_⟩
  · simp [deliver, extend, free, List.take_eq_take_min]
  all_goals
    by_cases h : bytes.length ≤ room
    · simp [deliver, free, h]
    · simp [deliver, free, h, Nat.lt_of_not_le h]

end Sink

/-- **A sink receives a prefix of the page.** A sink that takes something of every offer, whatever
it has received before, as long as it has room, receives the first bytes of the page that
`Template.render` gives, as many as it has room for, and writing fails if and only if these are not
all. This holds of every template, in whichever scope it was read. In the same way any text that is
escaped byte by byte on its way is received as the text that `Markup.escape` gives. Since what a
sink has received grows with everything that it takes, `portion` may be any sequence of choices. -/
theorem Template.renderTo_delivered (t : Template) (d : Template.Data) (room : Nat)
    (portion : List UInt8 → List UInt8 → Nat)
    (hportion : ∀ received offer, offer ≠ [] → 0 < portion received offer) :
    Sink.Delivered room (Text.encode (t.render d)) (t.renderTo d { room, portion }) ∧
      ∀ s : Text, Sink.Delivered room (Text.encode (Markup.escape s))
        (Sink.writeEscaped { room, portion } s.encode) := by
  have hwilling : Sink.Willing { room, portion } := hportion
  refine ⟨?_, fun s => ?_⟩
  · rw [renderTo, Sink.writePieces_eq_deliver hwilling]
    exact Sink.delivered_deliver room portion _
  · rw [Sink.writeEscaped_eq_deliver hwilling, Sink.escapeBytes_encode]
    exact Sink.delivered_deliver room portion _

/-- A sink that takes one, two or three bytes at a time and is full within an entity, with the
template of a page and with one without sections. -/
theorem Template.renderTo_delivered_within_entity :
    let source := "<b>{{restaurantName}}</b>".toList
    let d := Template.Data.ofRestaurant "Café & Bar".toList
    let portion : List UInt8 → List UInt8 → Nat := fun received _ => received.length % 3 + 1
    (∀ received offer, offer ≠ [] → 0 < portion received offer) ∧
      Sink.Delivered 11 (Text.encode ((ofText source).render d))
        ((ofText source).renderTo d { room := 11, portion }) ∧
      Sink.Delivered 11 (Text.encode ((parseBare source).1.render d))
        ((parseBare source).1.renderTo d { room := 11, portion }) := by
  intro source d portion
  have hportion : ∀ received offer, offer ≠ [] → 0 < portion received offer :=
    fun _ _ _ => Nat.succ_pos _
  exact ⟨hportion, (Template.renderTo_delivered (ofText source) d 11 portion hportion).1,
    (Template.renderTo_delivered (parseBare source).1 d 11 portion hportion).1⟩

end MenuPages
