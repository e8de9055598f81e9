import Mathlib.Data.List.FinRange
import Mathlib.Data.List.Sort
import ForeignBindings.Proofs.Declaration.Setting

/-! What a block of decorators says.  Each field of the attributes has a name of its own, so only the
decorators of this name matter for it, and of these the last one that says something.  So the order
of decorators with different names does not matter, nor do decorators that no field knows. -/

namespace ForeignBindings

namespace Decorator

/-- The name without the mark of the older spelling. -/
def plainName (d : Decorator) : Text := Attributes.plainName d.name

/-- The argument list, if the decorator has the name and a list. -/
def argsAs (name : Text) (d : Decorator) : Option (List Text) :=
  if d.plainName = name then d.args else none

/-- The first argument, if the decorator has the name and an argument. -/
def firstArgAs (name : Text) (d : Decorator) : Option Text := (d.argsAs name).bind List.head?

def knownNames : List Text :=
  ["module".toList, "scope".toList, "as".toList] ++ Flag.all.map Flag.name

end Decorator

open Decorator

/-- What the last of the decorators tells that tells something. -/
def lastSaid {α : Type} (tells : Decorator → Option α) (ds : List Decorator) : Option α :=
  (ds.filterMap tells).getLast?

/-- The second list holds the decorators of the first in some order, in which those of one name stand
as they did. -/
def Rearranged (ds es : List Decorator) : Prop :=
  ∃ σ : Fin ds.length ≃ Fin es.length, (∀ i, es.get (σ i) = ds.get i) ∧
    ∀ i j, i < j → (ds.get i).plainName = (ds.get j).plainName → σ i < σ j

/-- The second list lacks some of the decorators of the first that have no known name. -/
inductive Thinned : List Decorator → List Decorator → Prop
  | nil : Thinned [] []
  | keep {ds es : List Decorator} (d : Decorator) (h : Thinned ds es) : Thinned (d :: ds) (d :: es)
  | drop {ds es : List Decorator} {d : Decorator} (hd : d.plainName ∉ knownNames)
      (h : Thinned ds es) : Thinned (d :: ds) es

namespace Attributes

/-- The attributes are what the decorators say, field by field. -/
structure SaidBy (ds : List Decorator) (attributes : Attributes) : Prop where
  importPath : attributes.importPath = (lastSaid (firstArgAs "module".toList) ds).map unquote
  scope : attributes.scope = (lastSaid (argsAs "scope".toList) ds).map scopePath
  rename : attributes.rename = (lastSaid (firstArgAs "as".toList) ds).map unquote
  flags : ∀ flag : Flag, attributes.has flag = true ↔ ∃ d ∈ ds, d.plainName = flag.name

/-! ### One decorator -/

/-- A decorator changes the field of its name, and leaves every other as it was. -/
theorem apply_eq (attributes : Attributes) (d : Decorator) :
    attributes.apply d =
      { importPath := ((d.firstArgAs "module".toList).map unquote).or attributes.importPath
        scope := ((d.argsAs "scope".toList).map scopePath).or attributes.scope
        val := d.plainName = "val".toList || attributes.val
        send := d.plainName = "send".toList || attributes.send
        new := d.plainName = "new".toList || attributes.new
        get := d.plainName = "get".toList || attributes.get
        set := d.plainName = "set".toList || attributes.set
        rename := ((d.firstArgAs "as".toList).map unquote).or attributes.rename } := by
  simp only [apply, firstArgAs, argsAs, ← Decorator.plainName.eq_1]
  generalize d.plainName = name
  by_cases hmodule : name = "module".toList
  · subst hmodule
    rcases d.args with _ | _ | ⟨arg, more⟩ <;> rfl
  by_cases hscope : name = "scope".toList
  · subst hscope
    cases d.args <;> rfl
  by_cases has : name = "as".toList
  · subst has
    rcases d.args with _ | _ | ⟨arg, more⟩ <;> rfl
  simp only [hmodule, hscope, has, if_false]
  repeat' split
  all_goals simp_all

theorem apply_of_unknown {d : Decorator} (hd : d.plainName ∉ knownNames)
    (attributes : Attributes) : attributes.apply d = attributes := by
  simp only [knownNames, Flag.all, List.map_cons, List.map_nil, List.cons_append, List.nil_append,
    List.mem_cons, List.not_mem_nil, or_false, not_or, Flag.name] at hd
  rw [apply_eq]
  simp only [firstArgAs, argsAs, hd, if_false, decide_false, Bool.false_or, Option.bind_none,
    Option.map_none, Option.none_or]

theorem has_apply (attributes : Attributes) (d : Decorator) (flag : Flag) :
    (attributes.apply d).has flag = true ↔
      attributes.has flag = true ∨ d.plainName = flag.name := by
  rw [apply_eq]
  cases flag <;> simp [has, Flag.name, or_comm]

/-! ### A block of decorators -/

theorem lastSaid_concat {α : Type} (tells : Decorator → Option α) (ds : List Decorator)
    (d : Decorator) : lastSaid tells (ds ++ [d]) = (tells d).or (lastSaid tells ds) := by
  rw [lastSaid, List.filterMap_append, List.getLast?_append, lastSaid]
  cases h : tells d <;> simp [h]

theorem SaidBy.concat {ds : List Decorator} {attributes : Attributes} (h : SaidBy ds attributes)
    (d : Decorator) : SaidBy (ds ++ [d]) (attributes.apply d) where
  importPath := by rw [apply_eq, lastSaid_concat, Option.map_or, h.importPath]
  scope := by rw [apply_eq, lastSaid_concat, Option.map_or, h.scope]
  rename := by rw [apply_eq, lastSaid_concat, Option.map_or, h.rename]
  flags flag := by
    rw [has_apply, h.flags]
    simp [or_and_right, exists_or]

theorem saidBy_applyAll (ds : List Decorator) : SaidBy ds (applyAll .empty ds) := by
  induction ds using List.reverseRecOn with
  | nil => exact ⟨rfl, rfl, rfl, fun flag => by cases flag <;> simp [applyAll, empty, has]⟩
  | append_singleton ds d ih =>
    rw [applyAll, List.foldl_concat]
    exact ih.concat d

/-! ### Other orders -/

def ofName (name : Text) (ds : List Decorator) : List Decorator :=
  ds.filter fun d => d.plainName = name

theorem lastSaid_argsAs (name : Text) (ds : List Decorator) :
    lastSaid (argsAs name) ds = lastSaid Decorator.args (ofName name ds) := by
  rw [lastSaid, lastSaid, ofName, List.filterMap_filter]
  simp only [decide_eq_true_eq]
  rfl

theorem lastSaid_firstArgAs (name : Text) (ds : List Decorator) :
    lastSaid (firstArgAs name) ds =
      lastSaid (fun d => d.args.bind List.head?) (ofName name ds) := by
  rw [lastSaid, lastSaid, ofName, List.filterMap_filter]
  refine congrArg (fun tells => (ds.filterMap tells).getLast?) (funext fun d => ?_)
  simp only [decide_eq_true_eq, firstArgAs, argsAs]
  split <;> rfl

/-- Attributes have no more than their fields. -/
theorem SaidBy.unique {ds es : List Decorator} {a b : Attributes} (ha : SaidBy ds a)
    (hb : SaidBy es b) (h : ∀ name, ofName name ds = ofName name es) : a = b := by
  have hfirst (name : Text) : lastSaid (firstArgAs name) ds = lastSaid (firstArgAs name) es := by
    rw [lastSaid_firstArgAs, lastSaid_firstArgAs, h]
  have hargs (name : Text) : lastSaid (argsAs name) ds = lastSaid (argsAs name) es := by
    rw [lastSaid_argsAs, lastSaid_argsAs, h]
  have hnamed (name : Text) : (∃ d ∈ ds, d.plainName = name) ↔ ∃ d ∈ es, d.plainName = name := by
    have hne := congrArg (· ≠ []) (h name)
    simpa [ofName] using hne
  have hflag (flag : Flag) : a.has flag = b.has flag := by
    rw [Bool.eq_iff_iff, ha.flags, hb.flags, hnamed]
  have hpath : a.importPath = b.importPath := by rw [ha.importPath, hb.importPath, hfirst]
  have hscope : a.scope = b.scope := by rw [ha.scope, hb.scope, hargs]
  have hrename : a.rename = b.rename := by rw [ha.rename, hb.rename, hfirst]
  obtain ⟨importPath, scope, val, send, new, get, set, rename⟩ := a
  rw [mk.injEq]
  exact ⟨hpath, hscope, hflag .val, hflag .send, hflag .new, hflag .get, hflag .set, hrename⟩

def placesOf (name : Text) (ds : List Decorator) : List (Fin ds.length) :=
  (List.finRange ds.length).filter fun i => (ds.get i).plainName = name

theorem map_get_placesOf (name : Text) (ds : List Decorator) :
    (placesOf name ds).map ds.get = ofName name ds := by
  have hplaces := congrArg (ofName name) (List.map_get_finRange ds)
  rw [← hplaces, ofName, List.filter_map]
  rfl

theorem ofName_of_rearranged {ds es : List Decorator} (h : Rearranged ds es) (name : Text) :
    ofName name es = ofName name ds := by
  obtain ⟨σ, hsame, horder⟩ := h
  have hmem (xs : List Decorator) (i : Fin xs.length) :
      i ∈ placesOf name xs ↔ (xs.get i).plainName = name := by
    simp [placesOf]
  have hascending (xs : List Decorator) : (placesOf name xs).Pairwise (· < ·) :=
    (List.pairwise_lt_finRange _).filter _
  have hmoved : ((placesOf name ds).map σ).Pairwise (· < ·) := by
    refine List.pairwise_map.mpr ((hascending ds).imp_of_mem fun {i j} hi hj hlt => ?_)
    exact horder i j hlt (((hmem ds i).mp hi).trans ((hmem ds j).mp hj).symm)
  have hplaces : (placesOf name ds).map σ = placesOf name es := by
    refine hmoved.eq_of_mem_iff (hascending es) fun j => ?_
    obtain ⟨i, rfl⟩ := σ.surjective j
    rw [List.mem_map_of_injective σ.injective, hmem, hmem, hsame]
  calc ofName name es
    _ = (placesOf name es).map es.get := (map_get_placesOf name es).symm
    _ = (placesOf name ds).map (es.get ∘ σ) := by rw [← hplaces, List.map_map]
    _ = (placesOf name ds).map ds.get := congrArg (List.map · _) (funext hsame)
    _ = ofName name ds := map_get_placesOf name ds

theorem applyAll_of_thinned {ds es : List Decorator} (h : Thinned ds es) (attributes : Attributes) :
    attributes.applyAll es = attributes.applyAll ds := by
  induction h generalizing attributes with
  | nil => rfl
  | keep d h ih => exact ih (attributes.apply d)
  | @drop ds es d hd h ih =>
    rw [ih]
    exact congrArg (applyAll · ds) (apply_of_unknown hd attributes).symm

/-- A block of decorators says what the last of each name says, so it says the same in every order
that keeps those of one name as they stand, and without any that have no known name. -/
theorem said_of_block (ds : List Decorator) :
    SaidBy ds (applyAll .empty ds) ∧
      (∀ es, Rearranged ds es → applyAll .empty es = applyAll .empty ds) ∧
      (∀ es, Thinned ds es → applyAll .empty es = applyAll .empty ds) := by
  refine ⟨saidBy_applyAll ds, fun es h => ?_, fun es h => applyAll_of_thinned h .empty⟩
  exact (saidBy_applyAll es).unique (saidBy_applyAll ds) (ofName_of_rearranged h)

/-- The decorators `@module("a") @bs.val @module("b") @deprecated @scope("x")`. -/
def mixedBlock : List Decorator :=
  [⟨"module".toList, some ["\"a\"".toList]⟩, ⟨"bs.val".toList, none⟩,
    ⟨"module".toList, some ["\"b\"".toList]⟩, ⟨"deprecated".toList, none⟩,
    ⟨"scope".toList, some ["\"x\"".toList]⟩]

/-- The decorators `@module("a") @scope("x") @module("b") @deprecated @bs.val`. -/
def swappedBlock : List Decorator :=
  [⟨"module".toList, some ["\"a\"".toList]⟩, ⟨"scope".toList, some ["\"x\"".toList]⟩,
    ⟨"module".toList, some ["\"b\"".toList]⟩, ⟨"deprecated".toList, none⟩,
    ⟨"bs.val".toList, none⟩]

theorem rearranged_mixedBlock : Rearranged mixedBlock swappedBlock :=
  ⟨(Equiv.swap 1 4 : Fin 5 ≃ Fin 5), by decide, by decide⟩

theorem said_of_mixedBlock :
    Rearranged mixedBlock swappedBlock ∧
      applyAll .empty swappedBlock = applyAll .empty mixedBlock :=
  ⟨rearranged_mixedBlock, (said_of_block mixedBlock).2.1 _ rearranged_mixedBlock⟩

end Attributes

end ForeignBindings
