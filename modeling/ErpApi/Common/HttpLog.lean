import Mathlib.Data.List.Infix
import ErpApi.Basic.JsonPath
import ErpApi.Basic.Utf8

set_option autoImplicit false

/-! # The access log

The bodies of requests and responses are written to the access log. `redactDeep` puts a fixed text
in the place of what an object holds under a sensitive key; `captureResponseBody` collects the
chunks of a response up to a number of bytes and keeps what they parse to.

What the log shows is known place by place (`logged_iff`). A key is sensitive only as a whole, so
that a `current_password` or a `secret_key` is logged as it is, and so is everything more than
eleven steps inside the value. A response over the limit is marked as truncated only where the
chunks before the one that goes over are JSON on their own (`loggedBody_eq_some`), which those of a
reply in one chunk are not (`long_chunk_unlogged`).
-/

namespace ErpApi.HttpLog

open Json

/-! ## Redaction -/

def SENSITIVE_KEYS : List String :=
  ["password", "token", "access_token", "refresh_token", "secret", "authorization", "cookie",
    "csrf_token", "x-csrf-token", "x-access-token"]

/-- The lower case of a character where it is an ASCII letter. Beside the capital letters, the
Kelvin sign has such a lower case. -/
def lower (c : Char) : Char := if c.toNat = 0x212A then 'k' else c.toLower

/-- The test `SENSITIVE_KEYS.has(key.toLowerCase())`. The listed keys are ASCII. -/
def isSensitive (key : String) : Bool :=
  SENSITIVE_KEYS.contains (String.ofList (key.toList.map lower))

def redacted : Json := .str "[Redacted]"

/-- The value with as many levels still to look at. -/
def redactLevels : Nat → Json → Json
  | 0, value => value
  | levels + 1, .arr items => .arr (items.map (redactLevels levels))
  | levels + 1, .obj entries =>
      -- An assignment to `__proto__` makes no member.
      .obj (JsLiteral.objectOf (entries.map fun entry =>
        (entry.1, if isSensitive entry.1 then redacted else redactLevels levels entry.2)))
  | _ + 1, value => value

/-- Below a depth of ten the value is returned as it is. -/
def redactDeep (value : Json) (depth : Nat) : Json := redactLevels (11 - depth) value

theorem redactLevels_of_isAtom {v : Json} (h : v.IsAtom) (levels : Nat) :
    redactLevels levels v = v := by
  cases levels with
  | zero => rfl
  | succ levels =>
      cases v with
      | arr items => exact h.elim
      | obj entries => exact h.elim
      | null | bool | num | str => rfl

theorem redactLevels_eq_iff {v a : Json} (ha : a.IsAtom) (levels : Nat) :
    redactLevels levels v = a ↔ v = a := by
  cases levels with
  | zero => exact Iff.rfl
  | succ levels =>
      cases v with
      | arr items =>
          refine iff_of_false ?_ ?_
          · rintro rfl
            exact ha
          · rintro rfl
            exact ha
      | obj entries =>
          refine iff_of_false ?_ ?_
          · rintro rfl
            exact ha
          · rintro rfl
            exact ha
      | null | bool | num | str => exact Iff.rfl

/-! ## One step into a redacted value -/

/-- The step leads to a member that is replaced. -/
def Hides : Step → Prop
  | .key name => isSensitive name = true
  | .item _ => False

/-- The step leads to a part that is redacted in turn. -/
def Passes : Step → Prop
  | .key name => isSensitive name = false ∧ name ≠ "__proto__"
  | .item _ => True

instance : DecidablePred Passes
  | .key name => inferInstanceAs (Decidable (isSensitive name = false ∧ name ≠ "__proto__"))
  | .item _ => isTrue trivial

theorem Hides.not_passes {s : Step} (h : Hides s) : ¬ Passes s := by
  cases s with
  | key name =>
      intro hp
      have hboth : false = true := hp.1.symm.trans h
      cases hboth
  | item i => exact h.elim

/-- The members of an object that is looked at. -/
theorem lookup_redacted {entries : List (String × Json)} (hkeys : (entries.map Prod.fst).Nodup)
    (levels : Nat) (name : String) :
    (redactLevels (levels + 1) (.obj entries)).child (.key name) =
      if name = "__proto__" then none
      else (entries.lookup name).map fun w =>
        if isSensitive name then redacted else redactLevels levels w :=
  lookup_objectOf_map hkeys
    (fun key w => if isSensitive key then redacted else redactLevels levels w) name

theorem child_of_passes {v : Json} (hv : v.WellFormed) {s : Step} (hs : Passes s) (levels : Nat) :
    (redactLevels (levels + 1) v).child s = (v.child s).map (redactLevels levels) := by
  cases hv with
  | atom h => rw [redactLevels_of_isAtom h, child_of_isAtom h, Option.map_none]
  | arr hitems =>
      cases s with
      | key name => rfl
      | item i => exact List.getElem?_map ..
  | obj hkeys hvalues =>
      cases s with
      | key name =>
          rw [lookup_redacted hkeys, if_neg hs.2, hs.1]
          rfl
      | item i => rfl

theorem child_of_hides {v : Json} (hv : v.WellFormed) {s : Step} (hs : Hides s) (levels : Nat) :
    (redactLevels (levels + 1) v).child s = (v.child s).map fun _ => redacted := by
  cases s with
  | item i => exact hs.elim
  | key name =>
      cases hv with
      | atom h => rw [redactLevels_of_isAtom h, child_of_isAtom h, Option.map_none]
      | arr hitems => rfl
      | obj hkeys hvalues =>
          have hproto : name ≠ "__proto__" := by
            rintro rfl
            exact absurd (show isSensitive "__proto__" = true from hs) (by decide)
          rw [lookup_redacted hkeys, if_neg hproto, show isSensitive name = true from hs]
          rfl

theorem child_of_neither {v : Json} (hv : v.WellFormed) {s : Step} (hp : ¬ Passes s)
    (hh : ¬ Hides s) (levels : Nat) : (redactLevels (levels + 1) v).child s = none := by
  cases s with
  | item i => exact absurd trivial hp
  | key name =>
      have hproto : name = "__proto__" := by
        by_contra hne
        exact hp ⟨Bool.eq_false_of_not_eq_true hh, hne⟩
      cases hv with
      | atom h => rw [redactLevels_of_isAtom h, child_of_isAtom h]
      | arr hitems => rfl
      | obj hkeys hvalues => rw [lookup_redacted hkeys, if_pos hproto]

/-! ## The places of a redacted value -/

/-- The path meets no key that is hidden or dropped, on the levels that are looked at. -/
def Open (levels : Nat) (path : List Step) : Prop := ∀ s ∈ path.take levels, Passes s

instance (levels : Nat) (path : List Step) : Decidable (Open levels path) :=
  inferInstanceAs (Decidable (∀ s ∈ path.take levels, Passes s))

/-- The path ends at a member that is replaced. -/
def Closed (levels : Nat) (path : List Step) : Prop :=
  ∃ front s, path = front ++ [s] ∧ front.length < levels ∧ (∀ t ∈ front, Passes t) ∧ Hides s

theorem open_cons {levels : Nat} {s : Step} {path : List Step} :
    Open (levels + 1) (s :: path) ↔ Passes s ∧ Open levels path := by
  rw [Open, List.take_succ_cons]
  exact List.forall_mem_cons

theorem closed_cons {levels : Nat} {s : Step} {path : List Step} :
    Closed (levels + 1) (s :: path) ↔
      path = [] ∧ Hides s ∨ Passes s ∧ Closed levels path := by
  constructor
  · rintro ⟨front, t, heq, hlt, hfront, ht⟩
    cases front with
    | nil =>
        rw [List.nil_append] at heq
        obtain ⟨rfl, rfl⟩ := List.cons.inj heq
        exact .inl ⟨rfl, ht⟩
    | cons u front =>
        rw [List.cons_append] at heq
        obtain ⟨rfl, rfl⟩ := List.cons.inj heq
        obtain ⟨hs, hrest⟩ := List.forall_mem_cons.mp hfront
        rw [List.length_cons] at hlt
        exact .inr ⟨hs, front, t, rfl, by omega, hrest, ht⟩
  · rintro (⟨rfl, hs⟩ | ⟨hs, front, t, rfl, hlt, hfront, ht⟩)
    · exact ⟨[], s, rfl, Nat.succ_pos levels, by simp, hs⟩
    · refine ⟨s :: front, t, rfl, ?_, List.forall_mem_cons.mpr ⟨hs, hfront⟩, ht⟩
      rw [List.length_cons]
      omega

theorem not_closed_nil (levels : Nat) : ¬ Closed levels [] := by
  rintro ⟨front, s, heq, -⟩
  exact absurd heq (by simp)

theorem not_closed_zero (path : List Step) : ¬ Closed 0 path := by
  rintro ⟨front, s, -, hlt, -⟩
  exact absurd hlt (Nat.not_lt_zero _)

/-- What has no parts stands in the redacted value where it stands in the value itself, at an open
path; beside that, the replacement stands at the closed ones. -/
theorem part_redactLevels {v a : Json} (hv : v.WellFormed) (ha : a.IsAtom) (levels : Nat)
    (path : List Step) :
    (redactLevels levels v).part path = some a ↔
      Open levels path ∧ v.part path = some a ∨
        Closed levels path ∧ a = redacted ∧ (v.part path).isSome := by
  induction path generalizing v levels with
  | nil =>
      have hopen : Open levels [] := by simp [Open]
      simp [hopen, not_closed_nil, redactLevels_eq_iff ha]
  | cons s path ih =>
      cases levels with
      -- From here on the value is not looked at, and every path is open.
      | zero => simp [redactLevels, Open, not_closed_zero]
      | succ levels =>
          rw [part_cons, part_cons, open_cons, closed_cons]
          by_cases hp : Passes s
          · have hh : ¬ Hides s := fun hh => hh.not_passes hp
            rw [child_of_passes hv hp]
            cases hw : v.child s with
            | none => simp
            | some w =>
                have hrest := ih (hv.child hw) levels
                simpa [hp, hh] using hrest
          · by_cases hh : Hides s
            · rw [child_of_hides hv hh]
              cases hw : v.child s with
              | none => simp
              | some w =>
                  -- The replacement has no parts, so that the path ends here.
                  have hatom : redacted.IsAtom := trivial
                  have hend : redacted.part path = some a ↔ path = [] ∧ a = redacted :=
                    part_of_isAtom hatom
                  cases path with
                  | nil => simpa [hp, hh] using hend
                  | cons t path => simpa [hp, hh] using hend
            · rw [child_of_neither hv hp hh]
              simp [hp, hh]

/-- **What the log shows of a value.** A text, a number, a boolean or `null` is logged exactly where
it stands in the value, if the first eleven steps to it pass no sensitive key and no `__proto__`;
the replacement is logged for every part that is held under a sensitive key, where the ten steps
before that key pass. -/
theorem logged_iff {v a : Json} (hv : v.WellFormed) (ha : a.IsAtom) (path : List Step) :
    (redactDeep v 0).part path = some a ↔
      Open 11 path ∧ v.part path = some a ∨
        Closed 11 path ∧ a = redacted ∧ (v.part path).isSome :=
  part_redactLevels hv ha 11 path

def issuedKey : Json :=
  .obj [("attributes", .obj [("access_key_id", .str "AK7"), ("secret_key", .str "c2VjcmV0"),
    ("Token", .str "dG9rZW4")])]

theorem wellFormed_issuedKey : issuedKey.WellFormed := by
  have hattributes : ∀ entry ∈ [("access_key_id", Json.str "AK7"), ("secret_key", .str "c2VjcmV0"),
      ("Token", .str "dG9rZW4")], entry.2.WellFormed := by
    intro entry hentry
    simp only [List.mem_cons, List.not_mem_nil, or_false] at hentry
    rcases hentry with rfl | rfl | rfl
    · exact .atom trivial
    · exact .atom trivial
    · exact .atom trivial
  refine .obj (by decide) ?_
  intro entry hentry
  obtain rfl := List.mem_singleton.mp hentry
  exact .obj (by decide) hattributes

/-- The secret of a new access key is logged, a token beside it is not. -/
theorem logged_issuedKey :
    (redactDeep issuedKey 0).part [.key "attributes", .key "secret_key"] =
        some (.str "c2VjcmV0") ∧
      (redactDeep issuedKey 0).part [.key "attributes", .key "Token"] = some redacted := by
  constructor
  · have hatom : (Json.str "c2VjcmV0").IsAtom := trivial
    exact (logged_iff wellFormed_issuedKey hatom _).mpr (.inl ⟨by decide, by decide⟩)
  · have hatom : redacted.IsAtom := trivial
    exact (logged_iff wellFormed_issuedKey hatom _).mpr
      (.inr ⟨⟨[.key "attributes"], .key "Token", rfl, by decide, by decide,
        show isSensitive "Token" = true by decide⟩, rfl, by decide⟩)

/-! ## The body of a response -/

/-- What a handler passes to `write` or `end`. -/
inductive Chunk where
  | buffer (bytes : List UInt8)
  | text (text : String)
  | other

/-- A call of `write` or `end`, with the header `Content-Type` at that time. -/
structure Write where
  chunk : Chunk
  contentType : Option String

def Chunk.bytes : Chunk → Option (List UInt8)
  | .buffer bytes => some bytes
  | .text t => some (Utf8.encode t)
  | .other => none

structure Capture where
  chunks : List (List UInt8)
  totalBytes : Nat
  truncated : Bool

def Capture.init : Capture := ⟨[], 0, false⟩

def isJson (w : Write) : Bool :=
  decide ("application/json".toList <:+: (w.contentType.getD "").toList)

def collectChunk (maxBytes : Nat) (s : Capture) (w : Write) : Capture :=
  if s.truncated then s
  else if isJson w = false then s
  else
    match w.chunk.bytes with
    | none => s
    | some buf =>
        let totalBytes := s.totalBytes + buf.length
        -- The chunk that goes over is not kept.
        if maxBytes < totalBytes then { s with totalBytes := totalBytes, truncated := true }
        else { s with chunks := s.chunks ++ [buf], totalBytes := totalBytes }

section

variable (parse : String → Option Json)

/-- What is kept of the response. A body that does not parse is not kept. -/
def storeBody (s : Capture) : Option Json :=
  (parse (Utf8.decode s.chunks.flatten)).map fun parsed =>
    if s.truncated then .obj [("truncated", .bool true)] else parsed

/-- The member `body` of the log line. The calls are those of `write` and then the one of `end`,
where it has a chunk. Whether there is a header `Content-Disposition` is looked at before them. -/
def loggedBody (maxBytes : Nat) (isAttachment : Bool) (writes : List Write) : Option Json :=
  if isAttachment then none
  else (storeBody parse (writes.foldl (collectChunk maxBytes) Capture.init)).map (redactDeep · 0)

end

/-- The bytes that a call adds to the captured body, as long as there is room. -/
def Write.captured (w : Write) : Option (List UInt8) :=
  if isJson w then w.chunk.bytes else none

def Capture.add (maxBytes : Nat) (s : Capture) (buf : List UInt8) : Capture :=
  if s.truncated then s
  else if maxBytes < s.totalBytes + buf.length then
    { s with totalBytes := s.totalBytes + buf.length, truncated := true }
  else { s with chunks := s.chunks ++ [buf], totalBytes := s.totalBytes + buf.length }

theorem collectChunk_eq (maxBytes : Nat) (s : Capture) (w : Write) :
    collectChunk maxBytes s w =
      match w.captured with
      | some buf => s.add maxBytes buf
      | none => s := by
  unfold collectChunk Write.captured
  cases htruncated : s.truncated with
  | true =>
      rw [if_pos rfl]
      split
      · rw [Capture.add, htruncated, if_pos rfl]
      · rfl
  | false =>
      rw [if_neg Bool.false_ne_true]
      cases isJson w with
      | false => rfl
      | true =>
          rw [if_neg (Bool.noConfusion : ¬ true = false), if_pos rfl]
          cases w.chunk.bytes with
          | none => rfl
          | some buf => simp [Capture.add, htruncated]

/-- The chunks of the body that are JSON by their header. -/
def captured (writes : List Write) : List (List UInt8) := writes.filterMap Write.captured

theorem foldl_collectChunk (maxBytes : Nat) (s : Capture) (writes : List Write) :
    writes.foldl (collectChunk maxBytes) s = (captured writes).foldl (Capture.add maxBytes) s := by
  rw [captured, List.foldl_filterMap]
  congr
  funext s w
  rw [collectChunk_eq]
  cases w.captured with
  | none => rfl
  | some buf => rfl

theorem foldl_add_of_truncated {s : Capture} (h : s.truncated = true) (maxBytes : Nat)
    (bufs : List (List UInt8)) : bufs.foldl (Capture.add maxBytes) s = s := by
  induction bufs with
  | nil => rfl
  | cons buf bufs ih => rw [List.foldl_cons, Capture.add, if_pos h, ih]

/-- While there is room, every chunk is kept. -/
theorem foldl_add_of_le {maxBytes : Nat} {s : Capture} (hs : s.truncated = false)
    {bufs : List (List UInt8)} (h : s.totalBytes + bufs.flatten.length ≤ maxBytes) :
    bufs.foldl (Capture.add maxBytes) s =
      ⟨s.chunks ++ bufs, s.totalBytes + bufs.flatten.length, false⟩ := by
  induction bufs generalizing s with
  | nil => simp [← hs]
  | cons buf bufs ih =>
      rw [List.flatten_cons, List.length_append] at h
      have hadd : s.add maxBytes buf = ⟨s.chunks ++ [buf], s.totalBytes + buf.length, false⟩ := by
        rw [Capture.add, hs, if_neg Bool.false_ne_true, if_neg (by omega)]
      rw [List.foldl_cons, hadd, ih rfl (by dsimp only; omega)]
      simp [Nat.add_assoc]

/-- From the chunk on that goes over the limit, nothing is kept. -/
theorem foldl_add_of_lt {maxBytes : Nat} {front rest : List (List UInt8)} {buf : List UInt8}
    (hfits : front.flatten.length ≤ maxBytes)
    (hover : maxBytes < front.flatten.length + buf.length) :
    (front ++ buf :: rest).foldl (Capture.add maxBytes) Capture.init =
      ⟨front, front.flatten.length + buf.length, true⟩ := by
  have hfront : front.foldl (Capture.add maxBytes) Capture.init =
      ⟨Capture.init.chunks ++ front, Capture.init.totalBytes + front.flatten.length, false⟩ :=
    foldl_add_of_le rfl (by simpa [Capture.init] using hfits)
  have hadd : Capture.add maxBytes ⟨front, front.flatten.length, false⟩ buf =
      ⟨front, front.flatten.length + buf.length, true⟩ := by
    rw [Capture.add, if_neg Bool.false_ne_true, if_pos hover]
  rw [List.foldl_append, hfront, List.foldl_cons]
  simp only [Capture.init, List.nil_append, Nat.zero_add]
  rw [hadd, foldl_add_of_truncated rfl]

/-- Chunks that do not fit have a first one that goes over the limit. -/
theorem exists_over {maxBytes : Nat} {bufs : List (List UInt8)}
    (h : maxBytes < bufs.flatten.length) : ∃ front buf rest, bufs = front ++ buf :: rest ∧
      front.flatten.length ≤ maxBytes ∧ maxBytes < front.flatten.length + buf.length := by
  induction bufs generalizing maxBytes with
  | nil => exact absurd h (Nat.not_lt_zero _)
  | cons buf bufs ih =>
      rw [List.flatten_cons, List.length_append] at h
      by_cases hbuf : maxBytes < buf.length
      · exact ⟨[], buf, bufs, rfl, Nat.zero_le _, by simpa using hbuf⟩
      · -- The later chunks have the room that this one leaves.
        obtain ⟨front, next, rest, rfl, hfits, hover⟩ :=
          ih (show maxBytes - buf.length < bufs.flatten.length by omega)
        refine ⟨buf :: front, next, rest, rfl, ?_, ?_⟩
        · rw [List.flatten_cons, List.length_append]
          omega
        · rw [List.flatten_cons, List.length_append]
          omega

theorem redactDeep_truncated :
    redactDeep (.obj [("truncated", .bool true)]) 0 = .obj [("truncated", .bool true)] := by
  decide

variable {parse : String → Option Json} {maxBytes : Nat} {writes : List Write}

theorem storeBody_fits (h : (captured writes).flatten.length ≤ maxBytes) :
    storeBody parse (writes.foldl (collectChunk maxBytes) Capture.init) =
      parse (Utf8.decode (captured writes).flatten) := by
  rw [foldl_collectChunk, foldl_add_of_le rfl (by simpa [Capture.init] using h)]
  simp [storeBody, Capture.init]

theorem storeBody_over {front rest : List (List UInt8)} {buf : List UInt8}
    (hsplit : captured writes = front ++ buf :: rest) (hfits : front.flatten.length ≤ maxBytes)
    (hover : maxBytes < front.flatten.length + buf.length) :
    storeBody parse (writes.foldl (collectChunk maxBytes) Capture.init) =
      (parse (Utf8.decode front.flatten)).map fun _ => .obj [("truncated", .bool true)] := by
  rw [foldl_collectChunk, hsplit, foldl_add_of_lt hfits hover]
  rfl

/-- **What the log line of a response has for a body.** A response that fits is logged where its
chunks parse together. One that does not is logged as truncated where the chunks before the one
that goes over the limit parse, and otherwise not at all. -/
theorem loggedBody_eq_some {out : Json} :
    loggedBody parse maxBytes false writes = some out ↔
      (captured writes).flatten.length ≤ maxBytes ∧
          (∃ body, parse (Utf8.decode (captured writes).flatten) = some body ∧
            out = redactDeep body 0) ∨
        ∃ front buf rest, captured writes = front ++ buf :: rest ∧
          front.flatten.length ≤ maxBytes ∧ maxBytes < front.flatten.length + buf.length ∧
          (parse (Utf8.decode front.flatten)).isSome ∧ out = .obj [("truncated", .bool true)] := by
  rw [loggedBody, if_neg Bool.false_ne_true]
  by_cases hfits : (captured writes).flatten.length ≤ maxBytes
  · -- Where all chunks fit, none goes over the limit.
    have hnone : ¬ ∃ front buf rest, captured writes = front ++ buf :: rest ∧
        front.flatten.length ≤ maxBytes ∧ maxBytes < front.flatten.length + buf.length ∧
        (parse (Utf8.decode front.flatten)).isSome ∧
        out = .obj [("truncated", .bool true)] := by
      rintro ⟨front, buf, rest, hsplit, -, hover, -⟩
      rw [hsplit] at hfits
      simp only [List.flatten_append, List.flatten_cons, List.length_append] at hfits
      omega
    rw [storeBody_fits hfits, Option.map_eq_some_iff, or_iff_left hnone, and_iff_right hfits]
    simp only [eq_comm]
  · rw [or_iff_right fun h => hfits h.1]
    constructor
    · intro h
      obtain ⟨front, buf, rest, hsplit, hfront, hover⟩ := exists_over (Nat.lt_of_not_le hfits)
      rw [storeBody_over hsplit hfront hover, Option.map_map] at h
      obtain ⟨parsed, hparsed, rfl⟩ := Option.map_eq_some_iff.mp h
      refine ⟨front, buf, rest, hsplit, hfront, hover, ?_, redactDeep_truncated⟩
      rw [hparsed]
      rfl
    · rintro ⟨front, buf, rest, hsplit, hfront, hover, hparsed, rfl⟩
      obtain ⟨parsed, hparsed⟩ := Option.isSome_iff_exists.mp hparsed
      rw [storeBody_over hsplit hfront hover, hparsed]
      exact congrArg some redactDeep_truncated

/-- A reply in one chunk that is over the limit leaves no body in its log line. -/
theorem long_chunk_unlogged (hparse : parse "" = none) {buf : List UInt8}
    (hchunk : captured writes = [buf]) (hover : maxBytes < buf.length) :
    loggedBody parse maxBytes false writes = none := by
  have hsplit : captured writes = [] ++ buf :: [] := hchunk
  have hover' : maxBytes < ([] : List (List UInt8)).flatten.length + buf.length := by
    rw [List.flatten_nil, List.length_nil, Nat.zero_add]
    exact hover
  have hempty : Utf8.decode ([] : List (List UInt8)).flatten = "" := rfl
  rw [loggedBody, if_neg Bool.false_ne_true, storeBody_over hsplit (Nat.zero_le _) hover', hempty,
    hparse]
  rfl

end ErpApi.HttpLog
