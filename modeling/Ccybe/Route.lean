import Ccybe.Lib.Assoc
import Ccybe.Lib.CString

/-!
# The routes (`route.c`)

The table of the routes is one of the library `khash`, of which `KHash` has what is used here. That
it works as a map from strings is assumed by name in `KHash.Correct`.
-/

namespace Ccybe

open CSem

/-- `khash_t(route_map)` with values of type `V`, where there is memory. -/
structure KHash (V : Type) where
  Table : Type
  Iter : Type
  init : Table                                  -- `kh_init`
  put : Table → Bytes → Int × Iter × Table      -- `ret`, the result of `kh_put` and the table after it
  setValue : Table → Iter → V → Table           -- `kh_value(h, it) = v`
  get : Table → Bytes → Option Iter             -- `kh_get`; `none` is `kh_end`
  value : Table → Iter → V                      -- `kh_value(h, it)`

/-- The library is a map: `content` is what a table holds. `kh_put` of a key that is present reports
zero and keeps its value. -/
structure KHash.Correct {V : Type} (kh : KHash V) (content : kh.Table → Bytes → Option V) : Prop where
  init : ∀ k, content kh.init k = none
  present : ∀ t k, (content t k).isSome → (kh.put t k).1 = 0 ∧ content (kh.put t k).2.2 = content t
  absent : ∀ t k v, content t k = none → 0 < (kh.put t k).1 ∧
    content (kh.setValue (kh.put t k).2.2 (kh.put t k).2.1 v) = Function.update (content t) k (some v)
  get : ∀ t k, (kh.get t k).map (kh.value t) = content t k

section Route

variable {V : Type} (kh : KHash V)

/-- `route_register`; the key is a copy of `path`. -/
def routeRegister (route : kh.Table) (path : Bytes) (func : V) : Int × kh.Table :=
  let (ret, it, route) := kh.put route path
  if ret = -1 then (1, route)
  else if ret = 0 then (2, route)    -- route exits
  else (0, kh.setValue route it func)

/-- `route_lookup`. -/
def routeLookup (route : kh.Table) (path : Bytes) : Option V :=
  (kh.get route path).map (kh.value route)

/-- The table after `init_route` and calls of `register_route`. -/
def registerRoutes (calls : List (Bytes × V)) : kh.Table :=
  calls.foldl (fun route call => (routeRegister kh route call.1 call.2).2) kh.init

variable {kh} {content : kh.Table → Bytes → Option V} (hkh : kh.Correct content)

include hkh

/-- A path that is registered keeps its function. -/
lemma content_routeRegister (route : kh.Table) (path : Bytes) (func : V) (p : Bytes) :
    content (routeRegister kh route path func).2 p =
      (content route p).or (if p = path then some func else none) := by
  rw [routeRegister]
  rcases Option.eq_none_or_eq_some (content route path) with hnone | ⟨f, hsome⟩
  · obtain ⟨hret, hcontent⟩ := hkh.absent route path func hnone
    simp only [if_neg (show (kh.put route path).1 ≠ -1 by omega), if_neg hret.ne', hcontent]
    by_cases hp : p = path
    · rw [hp, Function.update_self, hnone, if_pos rfl]
      rfl
    · rw [Function.update_of_ne hp, if_neg hp, Option.or_none]
  · obtain ⟨hret, hcontent⟩ := hkh.present route path (by rw [hsome]; rfl)
    have hne : ¬ (0 : Int) = -1 := by decide
    simp only [hret, hne, if_false, if_true, hcontent]
    by_cases hp : p = path
    · rw [hp, hsome]
      rfl
    · rw [if_neg hp, Option.or_none]

lemma content_registerRoutes (calls : List (Bytes × V)) (p : Bytes) :
    content (registerRoutes kh calls) p = calls.lookup p := by
  have hfold : ∀ route, content (calls.foldl (fun route call =>
      (routeRegister kh route call.1 call.2).2) route) p = (content route p).or (calls.lookup p) := by
    induction calls with
    | nil => exact fun route => (Option.or_none).symm
    | cons call calls ih =>
      obtain ⟨path, func⟩ := call
      intro route
      rw [List.foldl_cons, ih, content_routeRegister hkh, Option.or_assoc, List.lookup_cons]
      by_cases hp : p = path
      · simp [hp]
      · have hbeq : (p == path) = false := by simpa using hp
        simp [hp, hbeq]
  rw [registerRoutes, hfold, hkh.init, Option.none_or]

/-- The function of the first call for a path is found. -/
lemma routeLookup_registerRoutes (calls : List (Bytes × V)) (p : Bytes) :
    routeLookup kh (registerRoutes kh calls) p = calls.lookup p := by
  rw [routeLookup, hkh.get, content_registerRoutes hkh]

end Route

/-! ### A table -/

/-- A table that is a list. -/
def listHash (V : Type) [Inhabited V] : KHash V where
  Table := List (Bytes × V)
  Iter := Bytes
  init := []
  put t k := if (t.lookup k).isSome then (0, k, t) else (1, k, t)
  setValue t k v := (k, v) :: t
  get t k := if (t.lookup k).isSome then some k else none
  value t k := (t.lookup k).getD default

lemma listHash_correct (V : Type) [Inhabited V] :
    (listHash V).Correct fun (t : List (Bytes × V)) k => t.lookup k where
  init _ := rfl
  present t k h := by
    have hput : (listHash V).put t k = (0, k, t) := if_pos h
    rw [hput]
    exact ⟨rfl, rfl⟩
  absent t k v h := by
    have hput : (listHash V).put t k = (1, k, t) := if_neg (by simp [h])
    rw [hput]
    refine ⟨Int.one_pos, funext fun p => ?_⟩
    by_cases hp : p = k
    · rw [hp, Function.update_self]
      exact List.lookup_cons_self
    · have hbeq : (p == k) = false := by simpa using hp
      rw [Function.update_of_ne hp]
      exact List.lookup_cons.trans (by rw [hbeq])
  get t k := by
    rcases Option.eq_none_or_eq_some (t.lookup k) with hnone | ⟨v, hsome⟩
    · simp [listHash, hnone]
    · simp [listHash, hsome]

end Ccybe
