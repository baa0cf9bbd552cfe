import ErpApi.Basic.Table
import Mathlib.Data.List.Sort

set_option autoImplicit false

/-! # The cookies of a browser

A browser keeps the cookies of a domain by name and path (`CookieJar`), each until it expires. A
request carries the live cookies whose path covers its own, those with longer paths first, and the
server reads the first one under a name (`CookieJar.read`).

A cookie that is only ever set under one path is read exactly when it is there and alive
(`CookieJar.OnePath.read_eq`).
-/

namespace ErpApi

structure Cookie where
  name : String
  value : String
  path : String
  /-- The end of its life, in milliseconds. -/
  expires : Nat
  deriving DecidableEq

/-- The cookies of one domain. A name and a path together name one cookie. -/
abbrev CookieJar := Table Cookie fun c => (c.name, c.path)

namespace CookieJar

def empty : CookieJar := ⟨[], List.nodup_nil⟩

def lookup (jar : CookieJar) (name path : String) : Option Cookie :=
  Table.lookup jar (name, path)

/-- A cookie replaces the one of its name and path. -/
def setCookie (jar : CookieJar) (c : Cookie) : CookieJar := Table.put jar c

def clearCookie (jar : CookieJar) (name path : String) : CookieJar :=
  Table.drop jar (name, path)

/-- Whether a cookie with the path `cookiePath` goes along with a request for `path`. -/
def pathMatches (path cookiePath : String) : Bool :=
  cookiePath.toList.isPrefixOf path.toList &&
    (path == cookiePath || cookiePath.toList.getLast? == some '/' ||
      path.toList[cookiePath.length]? == some '/')

def Sent (now : Nat) (path : String) (c : Cookie) : Prop :=
  now < c.expires ∧ pathMatches path c.path = true

instance (now : Nat) (path : String) : DecidablePred (Sent now path) := fun _ =>
  inferInstanceAs (Decidable (_ ∧ _))

/-- The cookies of a request for the path, in the order of the header. -/
def sent (jar : CookieJar) (now : Nat) (path : String) : List Cookie :=
  (jar.rows.filter fun c => Sent now path c).insertionSort fun a b => b.path.length ≤ a.path.length

/-- What the server reads under the name. -/
def read (jar : CookieJar) (now : Nat) (path name : String) : Option String :=
  ((jar.sent now path).find? fun c => c.name = name).map (·.value)

section Lookup

variable {jar : CookieJar} {name path : String}

@[simp] theorem lookup_empty : empty.lookup name path = none := rfl

theorem lookup_setCookie (c : Cookie) :
    (jar.setCookie c).lookup name path =
      if c.name = name ∧ c.path = path then some c else jar.lookup name path := by
  rw [lookup, setCookie, Table.lookup_put]
  simp only [Prod.mk.injEq]
  rfl

theorem lookup_clearCookie (name' path' : String) :
    (jar.clearCookie name' path').lookup name path =
      if name' = name ∧ path' = path then none else jar.lookup name path := by
  rw [lookup, clearCookie, Table.lookup_drop]
  simp only [Prod.mk.injEq]
  rfl

theorem lookup_eq_some {c : Cookie} :
    jar.lookup name path = some c ↔ c ∈ jar.rows ∧ c.name = name ∧ c.path = path := by
  rw [lookup, Table.lookup_eq_some, Prod.mk.injEq]

theorem mem_sent {now : Nat} {c : Cookie} :
    c ∈ jar.sent now path ↔ c ∈ jar.rows ∧ Sent now path c := by
  rw [sent, List.mem_insertionSort, List.mem_filter, decide_eq_true_iff]

end Lookup

/-- The jar keeps cookies of the name under one path only. -/
def OnePath (jar : CookieJar) (name cookiePath : String) : Prop :=
  ∀ path, path ≠ cookiePath → jar.lookup name path = none

section OnePath

variable {jar : CookieJar} {name cookiePath : String}

theorem onePath_empty : OnePath empty name cookiePath := fun _ _ => rfl

theorem OnePath.setCookie (h : jar.OnePath name cookiePath) {c : Cookie}
    (hc : c.name = name → c.path = cookiePath) : (jar.setCookie c).OnePath name cookiePath := by
  intro path hpath
  rw [lookup_setCookie, if_neg, h path hpath]
  rintro ⟨hname, hp⟩
  exact hpath (hp.symm.trans (hc hname))

theorem OnePath.clearCookie (h : jar.OnePath name cookiePath) (name' path' : String) :
    (jar.clearCookie name' path').OnePath name cookiePath := by
  intro path hpath
  rw [lookup_clearCookie, h path hpath]
  split <;> rfl

theorem OnePath.path_eq (h : jar.OnePath name cookiePath) {c : Cookie} (hc : c ∈ jar.rows)
    (hname : c.name = name) : c.path = cookiePath := by
  by_contra hne
  have hsome : jar.lookup name c.path = some c := lookup_eq_some.mpr ⟨hc, hname, rfl⟩
  rw [h c.path hne] at hsome
  cases hsome

/-- What the server reads of a name kept under one path. -/
theorem OnePath.read_eq (h : jar.OnePath name cookiePath) (now : Nat) (path : String) :
    jar.read now path name =
      ((jar.lookup name cookiePath).filter fun c => Sent now path c).map (·.value) := by
  unfold read
  congr 1
  cases hfind : (jar.sent now path).find? fun c => c.name = name with
  | none =>
      rw [List.find?_eq_none] at hfind
      cases hlookup : jar.lookup name cookiePath with
      | none => rfl
      | some c =>
          obtain ⟨hmem, hname, -⟩ := lookup_eq_some.mp hlookup
          have hnot : ¬ Sent now path c := by
            intro hsent
            have hno := hfind c (mem_sent.mpr ⟨hmem, hsent⟩)
            exact hno (by simpa using hname)
          simp [Option.filter, hnot]
  | some c =>
      have hname : c.name = name := by simpa using List.find?_some hfind
      obtain ⟨hmem, hsent⟩ := mem_sent.mp (List.mem_of_find?_eq_some hfind)
      have hlookup : jar.lookup name cookiePath = some c :=
        lookup_eq_some.mpr ⟨hmem, hname, h.path_eq hmem hname⟩
      simp [hlookup, Option.filter, hsent]

end OnePath

/-- Every path of a request starts with a slash, so the path `/` covers it. -/
theorem pathMatches_root {path : String} (h : path.toList.head? = some '/') :
    pathMatches path "/" = true := by
  cases hpath : path.toList with
  | nil => rw [hpath] at h; cases h
  | cons c rest =>
      rw [hpath] at h
      cases h
      simp [pathMatches, hpath]

end CookieJar

end ErpApi
