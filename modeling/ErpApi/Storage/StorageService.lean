import ErpApi.Basic.JsString
import ErpApi.Basic.PosixPath
import ErpApi.Basic.SequentialRun
import ErpApi.Basic.Utf8

set_option autoImplicit false

/-! # The storage service

`StorageService` keeps files in the buckets of an object store. `upload` makes the key of an object
from a folder, the name of the file and a random UUID: the name without its extension is reduced to
harmless characters, the extension is taken as it is.

The name of a file is restored first, since the parser of multipart forms reads its bytes as latin1
(`decodeOriginalName_latin1`). Whatever the names, the key gives back the folder and the UUID
(`objectKey_inj`), so no upload touches the object of another one: a stored file stays as it was
until its own key is removed (`mem_objects_iff`).
-/

namespace ErpApi.Storage

open PosixPath

/-! ## Names -/

/-- The call `Buffer.from(text, 'latin1')`: the low byte of each code unit. -/
def latin1Bytes (text : String) : List UInt8 :=
  (text.toList.flatMap Js.codeUnits).map fun unit => UInt8.ofNat unit

/-- The text that a reader of latin1 makes of the bytes. -/
def latin1Text (bytes : List UInt8) : String :=
  String.ofList (bytes.map fun b => Char.ofNat b.toNat)

def decodeOriginalName (originalname : String) : String :=
  Utf8.decode (latin1Bytes originalname)

/-- The characters that the pattern `/[^a-zA-Z0-9.\-_]/` leaves alone. -/
def isHarmless (c : Char) : Bool := c.isAlphanum || c == '.' || c == '-' || c == '_'

/-- Every code unit of another character becomes an underscore. -/
def sanitize (name : List Char) : List Char :=
  name.flatMap fun c =>
    if isHarmless c then [c] else List.replicate (Js.codeUnits c).length '_'

def sanitizedBaseName (originalName : List Char) : List Char :=
  sanitize (basename originalName (extname originalName))

/-- A UUID in its text form. -/
structure Uuid where
  text : List Char
  length_eq : text.length = 36
  harmless : text.all (fun c => c.isAlphanum || c == '-') = true
  deriving DecidableEq

def uniqueFileName (originalName : List Char) (uuid : Uuid) : List Char :=
  sanitizedBaseName originalName ++ '-' :: uuid.text ++ extname originalName

def objectKey (key : String) (originalname : String) (uuid : Uuid) : String :=
  String.ofList
    (key.toList ++ '/' :: uniqueFileName (decodeOriginalName originalname).toList uuid)

/-! ## Files and errors -/

structure SerializedFile where
  originalname : String
  mimetype : String
  data : List UInt8

/-- What the service reads of an error that the S3 client throws. -/
structure S3Error where
  isServiceException : Bool
  name : String
  httpStatusCode : Option Nat
  code : Option String
  type : Option String

inductive StorageError where
  | notFound (message : String)
  | forbidden (message : String)
  | serviceUnavailable (message : String)
  deriving DecidableEq

def translateS3Error (error : S3Error) (action : String) : StorageError :=
  if error.isServiceException && error.name == "NoSuchBucket" then
    .notFound "Bucket does not exist."
  else if error.isServiceException &&
      (error.name == "InvalidAccessKeyId" || error.httpStatusCode == some 403) then
    .forbidden "Invalid S3 credentials provided."
  else if error.code == some "ECONNREFUSED" || error.type == some "ECONNRESET" then
    .serviceUnavailable "Cannot connect to the storage service."
  else
    .serviceUnavailable
      ("An unexpected error occurred while trying to " ++ action ++ " the file.")

/-! ## The object store -/

structure StoredObject where
  body : List UInt8
  contentType : String
  deriving DecidableEq

/-- The objects by bucket and key. -/
abbrev ObjectStore := String → String → Option StoredObject

def ObjectStore.set (store : ObjectStore) (bucket key : String) (object : Option StoredObject) :
    ObjectStore :=
  fun b k => if b = bucket ∧ k = key then object else store b k

/-- The outcome of a command of the S3 client. -/
abbrev S3Outcome := Except S3Error Unit

def upload (store : ObjectStore) (bucket key : String) (file : SerializedFile) (uuid : Uuid)
    (outcome : S3Outcome) : ObjectStore × Except StorageError String :=
  let path := objectKey key file.originalname uuid
  match outcome with
  | .ok _ => (store.set bucket path (some ⟨file.data, file.mimetype⟩), .ok path)
  | .error e => (store, .error (translateS3Error e "upload"))

def remove (store : ObjectStore) (bucket key : String) (outcome : S3Outcome) :
    ObjectStore × Except StorageError String :=
  match outcome with
  | .ok _ => (store.set bucket key none, .ok ("File '" ++ key ++ "' was successfully removed."))
  | .error e => (store, .error (translateS3Error e "remove"))

inductive Request where
  | upload (bucket key : String) (file : SerializedFile) (uuid : Uuid) (outcome : S3Outcome)
  | remove (bucket key : String) (outcome : S3Outcome)

def step (store : ObjectStore) : Request → ObjectStore
  | .upload bucket key file uuid outcome => (upload store bucket key file uuid outcome).1
  | .remove bucket key outcome => (remove store bucket key outcome).1

def run (store : ObjectStore) (requests : List Request) : ObjectStore :=
  Sequential.run step store requests

/-- The UUID that an upload draws. -/
def Request.uuid : Request → Option Uuid
  | .upload _ _ _ uuid _ => some uuid
  | .remove _ _ _ => none

/-! ## Names come back -/

theorem latin1Bytes_latin1Text (bytes : List UInt8) : latin1Bytes (latin1Text bytes) = bytes := by
  have hbyte : ∀ b : UInt8, Js.codeUnits (Char.ofNat b.toNat) = [b.toNat] := by
    intro b
    have hlt := b.toNat_lt
    have hrange : b.toNat.isValidChar := .inl (by omega)
    have hvalid : (Char.ofNat b.toNat).toNat = b.toNat := by
      rw [Char.ofNat, dif_pos hrange]
      rfl
    rw [Js.codeUnits, if_pos (by omega), hvalid]
  unfold latin1Bytes latin1Text
  rw [String.toList_ofList]
  induction bytes with
  | nil => rfl
  | cons b bytes ih =>
      rw [List.map_cons, List.flatMap_cons, hbyte, List.singleton_append, List.map_cons, ih]
      simp

/-- The name of a file that went through a form is restored. -/
theorem decodeOriginalName_latin1 (name : String) :
    decodeOriginalName (latin1Text (Utf8.encode name)) = name := by
  rw [decodeOriginalName, latin1Bytes_latin1Text, Utf8.decode_encode]

/-! ## Keys are told apart -/

theorem not_mem_sanitize {c : Char} (hc : isHarmless c = false) (name : List Char) :
    c ∉ sanitize name := by
  intro h
  obtain ⟨d, -, hd⟩ := List.mem_flatMap.mp h
  split at hd
  · rename_i hharmless
    obtain rfl := List.mem_singleton.mp hd
    rw [hc] at hharmless
    cases hharmless
  · obtain rfl := List.eq_of_mem_replicate hd
    cases hc

theorem dot_mem_sanitize {name : List Char} (h : '.' ∈ sanitize name) : '.' ∈ name := by
  obtain ⟨d, hd, hdot⟩ := List.mem_flatMap.mp h
  split at hdot
  · obtain rfl := List.mem_singleton.mp hdot
    exact hd
  · exact absurd (List.eq_of_mem_replicate hdot) (by decide)

theorem Uuid.not_mem (uuid : Uuid) {c : Char} (hc : c.isAlphanum = false) (hdash : c ≠ '-') :
    c ∉ uuid.text := by
  intro h
  have hall := List.all_eq_true.mp uuid.harmless c h
  simp [hc, hdash] at hall

theorem slash_not_mem_uniqueFileName (originalName : List Char) (uuid : Uuid) :
    '/' ∉ uniqueFileName originalName uuid := by
  unfold uniqueFileName
  intro h
  rcases List.mem_append.mp h with h | h
  · rcases List.mem_append.mp h with h | h
    · exact not_mem_sanitize (by decide) _ h
    · rcases List.mem_cons.mp h with h | h
      · exact absurd h (by decide)
      · exact uuid.not_mem (by decide) (by decide) h
  · exact slash_not_mem_extname _ h

theorem basename_of_extname_nil {name : List Char} (h : extname name = []) :
    basename name (extname name) = lastPart name := by
  have happend := basename_append_extname name
  rwa [h, List.append_nil, ← h] at happend

/-- The name of an upload without extension does not read like one with an extension: a dot comes
before its UUID or not at all. -/
theorem uniqueFileName_extname_ne {name name' : List Char} {uuid uuid' : Uuid}
    (hext : extname name = []) {tail : List Char} (hext' : extname name' = '.' :: tail)
    (htail : '.' ∉ tail) : uniqueFileName name uuid ≠ uniqueFileName name' uuid' := by
  intro heq
  have hbase : sanitizedBaseName name = sanitize (lastPart name) := by
    rw [sanitizedBaseName, basename_of_extname_nil hext]
  have hrest : ∀ l : List Char, '.' ∉ l → '.' ∉ sanitize l ++ '-' :: uuid.text := by
    intro l hl h
    rcases List.mem_append.mp h with h | h
    · exact hl (dot_mem_sanitize h)
    · rcases List.mem_cons.mp h with h | h
      · exact absurd h (by decide)
      · exact uuid.not_mem (by decide) (by decide) h
  unfold uniqueFileName at heq
  rw [hbase, hext, hext', List.append_nil] at heq
  rcases extname_cases name with ⟨-, hnodot | ⟨rest, hrestdot, hpart | hpart⟩⟩ | ⟨-, -, hsome, -⟩
  · refine hrest _ hnodot ?_
    rw [heq]
    exact List.mem_append_right _ List.mem_cons_self
  · have hsplit : sanitize (lastPart name) ++ '-' :: uuid.text =
        [] ++ '.' :: (sanitize rest ++ '-' :: uuid.text) := by
      rw [hpart]
      rfl
    rw [hsplit] at heq
    have hfront := (append_cons_inj (hrest rest hrestdot) htail heq).1
    exact absurd hfront.symm (by simp)
  · have hsplit : sanitize (lastPart name) ++ '-' :: uuid.text =
        ['.'] ++ '.' :: (sanitize rest ++ '-' :: uuid.text) := by
      rw [hpart]
      rfl
    rw [hsplit] at heq
    have hfront := (append_cons_inj (hrest rest hrestdot) htail heq).1
    have hlen := congrArg List.length hfront
    simp only [List.length_append, List.length_cons, uuid'.length_eq, List.length_nil] at hlen
    omega
  · rw [hext] at hsome
    cases hsome

/-- The name under which a file is kept gives back its UUID. -/
theorem uniqueFileName_inj {name name' : List Char} {uuid uuid' : Uuid}
    (heq : uniqueFileName name uuid = uniqueFileName name' uuid') : uuid.text = uuid'.text := by
  have hlen : uuid.text.length = uuid'.text.length := by rw [uuid.length_eq, uuid'.length_eq]
  have hstem : ∀ {s s' : List Char}, s ++ '-' :: uuid.text = s' ++ '-' :: uuid'.text →
      uuid.text = uuid'.text := by
    intro s s' h
    have hcons : '-' :: uuid.text = '-' :: uuid'.text :=
      (List.append_inj' h (by simp [hlen])).2
    exact (List.cons.inj hcons).2
  rcases extname_cases name with ⟨hext, -⟩ | ⟨-, -, hext, -⟩
  · rcases extname_cases name' with ⟨hext', -⟩ | ⟨-, -, hext', -⟩
    · unfold uniqueFileName at heq
      rw [hext, hext', List.append_nil, List.append_nil] at heq
      exact hstem heq
    · exact absurd heq (uniqueFileName_extname_ne hext hext' (not_mem_behind _ _))
  · rcases extname_cases name' with ⟨hext', -⟩ | ⟨-, -, hext', -⟩
    · exact absurd heq.symm (uniqueFileName_extname_ne hext' hext (not_mem_behind _ _))
    · unfold uniqueFileName at heq
      rw [hext, hext'] at heq
      exact hstem (append_cons_inj (not_mem_behind _ _) (not_mem_behind _ _) heq).1

/-- The key of an object gives back its folder and its UUID, whatever the name of the file. -/
theorem objectKey_inj {key key' originalname originalname' : String} {uuid uuid' : Uuid}
    (heq : objectKey key originalname uuid = objectKey key' originalname' uuid') :
    key = key' ∧ uuid = uuid' := by
  have hlist := congrArg String.toList heq
  rw [objectKey, objectKey, String.toList_ofList, String.toList_ofList] at hlist
  obtain ⟨hkey, hname⟩ := append_cons_inj (slash_not_mem_uniqueFileName _ _)
    (slash_not_mem_uniqueFileName _ _) hlist
  refine ⟨String.toList_injective hkey, ?_⟩
  have htext := uniqueFileName_inj hname
  cases uuid
  cases uuid'
  cases htext
  rfl

/-! ## What is stored -/

/-- An upload of the run put the object under the key, and no request removed it afterwards. -/
def Uploaded (requests : List Request) (bucket path : String) (object : StoredObject) : Prop :=
  ∃ before after key file uuid,
    requests = before ++ .upload bucket key file uuid (.ok ()) :: after ∧
    path = objectKey key file.originalname uuid ∧ object = ⟨file.data, file.mimetype⟩ ∧
    .remove bucket path (.ok ()) ∉ after

theorem uploaded_append_iff {requests : List Request} {r : Request} {bucket path : String}
    {object : StoredObject} :
    Uploaded (requests ++ [r]) bucket path object ↔
      (∃ key file uuid, r = .upload bucket key file uuid (.ok ()) ∧
        path = objectKey key file.originalname uuid ∧ object = ⟨file.data, file.mimetype⟩) ∨
      Uploaded requests bucket path object ∧ r ≠ .remove bucket path (.ok ()) := by
  constructor
  · rintro ⟨before, after, key, file, uuid, hsplit, hpath, hobject, hkept⟩
    rcases List.eq_nil_or_concat after with rfl | ⟨after', last, rfl⟩
    · left
      exact ⟨key, file, uuid, (List.append_inj' hsplit rfl).2 |> List.head_eq_of_cons_eq, hpath,
        hobject⟩
    · right
      rw [List.concat_eq_append, ← List.cons_append, ← List.append_assoc] at hsplit
      obtain ⟨hinit, hlast⟩ := List.append_inj' hsplit rfl
      obtain rfl := List.head_eq_of_cons_eq hlast
      rw [List.concat_eq_append, List.mem_append, not_or] at hkept
      refine ⟨⟨before, after', key, file, uuid, hinit, hpath, hobject, hkept.1⟩, ?_⟩
      rintro rfl
      exact hkept.2 (List.mem_singleton.mpr rfl)
  · rintro (⟨key, file, uuid, rfl, hpath, hobject⟩ | ⟨⟨before, after, key, file, uuid, rfl, hpath,
      hobject, hkept⟩, hr⟩)
    · exact ⟨requests, [], key, file, uuid, rfl, hpath, hobject, List.not_mem_nil⟩
    · refine ⟨before, after ++ [r], key, file, uuid, by simp, hpath, hobject, ?_⟩
      rw [List.mem_append, not_or]
      exact ⟨hkept, fun h => hr (List.mem_singleton.mp h).symm⟩

theorem Uploaded.uuid_mem {requests : List Request} {bucket key : String} {object : StoredObject}
    {file : SerializedFile} {uuid : Uuid}
    (h : Uploaded requests bucket (objectKey key file.originalname uuid) object) :
    uuid ∈ requests.filterMap Request.uuid := by
  obtain ⟨before, after, key', file', uuid', rfl, hpath, -, -⟩ := h
  obtain rfl := (objectKey_inj hpath).2
  exact List.mem_filterMap.mpr ⟨_, List.mem_append_right _ List.mem_cons_self, rfl⟩

/-- From an empty store, in every run of uploads with different UUIDs and of removals, some of them
failing: an object is stored under a key exactly when an upload put it there and nothing removed
it afterwards. -/
theorem mem_objects_iff (requests : List Request)
    (hdistinct : (requests.filterMap Request.uuid).Nodup) (bucket path : String)
    (object : StoredObject) :
    run (fun _ _ => none) requests bucket path = some object ↔
      Uploaded requests bucket path object := by
  induction requests using List.reverseRecOn with
  | nil =>
      constructor
      · intro h
        cases h
      · rintro ⟨before, after, key, file, uuid, hsplit, -⟩
        simp at hsplit
  | append_singleton requests r ih =>
      rw [List.filterMap_append, List.nodup_append] at hdistinct
      have hrun : run (fun _ _ => none) (requests ++ [r]) =
          step (run (fun _ _ => none) requests) r := Sequential.run_append ..
      rw [hrun, uploaded_append_iff, ← ih hdistinct.1]
      cases r with
      | upload bucket' key file uuid outcome =>
          cases outcome with
          | error e => simp [step, upload]
          | ok u =>
              simp only [step, upload, ObjectStore.set]
              by_cases hsame : bucket = bucket' ∧ path = objectKey key file.originalname uuid
              · obtain ⟨rfl, rfl⟩ := hsame
                -- The key is new: an earlier upload under it would have drawn the same UUID.
                have hnew : run (fun _ _ => none) requests bucket
                    (objectKey key file.originalname uuid) ≠ some object := by
                  intro hold
                  have hmem := ((ih hdistinct.1).mp hold).uuid_mem
                  exact hdistinct.2.2 uuid hmem uuid (by simp [Request.uuid]) rfl
                simp only [true_and, if_true, hnew, false_and, or_false, Option.some.injEq]
                constructor
                · rintro rfl
                  exact ⟨key, file, uuid, rfl, rfl, rfl⟩
                · rintro ⟨_, _, _, ⟨⟩, -, rfl⟩
                  rfl
              · simp only [hsame, if_false]
                constructor
                · exact fun h => .inr ⟨h, by simp⟩
                · rintro (⟨_, _, _, ⟨⟩, rfl, -⟩ | ⟨h, -⟩)
                  · exact absurd ⟨rfl, rfl⟩ hsame
                  · exact h
      | remove bucket' key outcome =>
          cases outcome with
          | error e => simp [step, remove]
          | ok u =>
              simp only [step, remove, ObjectStore.set]
              by_cases hsame : bucket = bucket' ∧ path = key
              · obtain ⟨rfl, rfl⟩ := hsame
                simp
              · have hne : ¬ (bucket' = bucket ∧ key = path) := fun h =>
                  hsame ⟨h.1.symm, h.2.symm⟩
                simp [hsame, hne]

/-! The same file is uploaded twice, and the first object is removed. -/

def firstUuid : Uuid where
  text := "3f2504e0-4f89-41d3-9a0c-0305e82c3301".toList
  length_eq := by decide
  harmless := by decide

def secondUuid : Uuid where
  text := "9b2d6f10-77aa-4c1e-8d55-2f3c0a917e42".toList
  length_eq := by decide
  harmless := by decide

def invoice : SerializedFile := ⟨"INV-1.pdf", "application/pdf", [37, 80, 68, 70]⟩

def uploadTwice : List Request :=
  [.upload "erp-storage" "reports" invoice firstUuid (.ok ()),
    .upload "erp-storage" "reports" invoice secondUuid (.ok ()),
    .remove "erp-storage" (objectKey "reports" "INV-1.pdf" firstUuid) (.ok ())]

theorem mem_objects_uploadTwice :
    run (fun _ _ => none) uploadTwice "erp-storage" (objectKey "reports" "INV-1.pdf" secondUuid) =
      some ⟨[37, 80, 68, 70], "application/pdf"⟩ := by
  refine (mem_objects_iff uploadTwice (by decide) _ _ _).mpr
    ⟨[_], [_], "reports", invoice, secondUuid, rfl, rfl, rfl, ?_⟩
  intro h
  have heq := List.mem_singleton.mp h
  simp only [Request.remove.injEq, true_and, and_true] at heq
  exact absurd (objectKey_inj heq).2 (by decide)

end ErpApi.Storage
