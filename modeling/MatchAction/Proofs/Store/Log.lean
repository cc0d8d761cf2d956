/-
  MatchAction.Proofs.Store.Log — a store says what was done to it, and nothing else.

  A store comes about from the empty one by edits of single tables and by merging stores
  that come about in the same way. A `Script` is such a history with all its merges; its log
  lists the edits in order, those of a merged store in the place where it was merged. The
  log alone decides the store: what it holds for a table is read off the edits of that
  table, whatever was done to other tables in between and however the merges are nested.

  Proved:
  - `logged_concat`: what a log says of a table after one more edit.
  - `merge_replay`, `run_eq_replay`: merging a store is going through its log.
  - `store_follows_log`: a table is there if and only if the log names it; its name is the
    one that it is found under, its rules are the rules that were added to it, in order, its
    default action is the last one that was set, and it is disabled if and only if some edit
    disabled it. Merging is associative, and the empty store is neutral on both sides.
-/

import Mathlib.Data.List.Induction
import MatchAction.Proofs.Store.Lookup

namespace MatchAction

namespace Store

/-- One thing that is done to one table of a store. -/
inductive Edit where
  | addEntry (table : String) (keySet : KeySet) (action : Binding)
  | addRule (table : String) (rule : Rule)
  | setDefault (table : String) (action : Binding)
  | disable (table : String)
  deriving DecidableEq, Repr

namespace Edit

def table : Edit → String
  | addEntry table _ _ | addRule table _ | setDefault table _ | disable table => table

def apply (store : Store) : Edit → Store
  | addEntry table keySet action => store.addEntry table keySet action
  | addRule table rule => store.addRule table rule
  | setDefault table action => store.setDefault table action
  | disable table => store.disable table

def rule? (name : String) : Edit → Option Rule
  | addEntry table keySet action => if table = name then some { keySet, action } else none
  | addRule table rule => if table = name then some rule else none
  | setDefault _ _ | disable _ => none

def default? (name : String) : Edit → Option Binding
  | setDefault table action => if table = name then some action else none
  | addEntry _ _ _ | addRule _ _ | disable _ => none

end Edit

/-- How a store comes about. -/
inductive Script where
  | start
  | edit (script : Script) (edit : Edit)
  | merge (script other : Script)
  deriving DecidableEq, Repr

namespace Script

def run : Script → Store
  | start => ∅
  | edit script e => e.apply script.run
  | merge script other => script.run.merge other.run

/-- All edits in order; those of a merged store come where it is merged. -/
def log : Script → List Edit
  | start => []
  | edit script e => script.log ++ [e]
  | merge script other => script.log ++ other.log

end Script

/-- What the edits of the table `name` come to. -/
def logged (log : List Edit) (name : String) : Config where
  table := name
  rules := log.filterMap (Edit.rule? name)
  defaultAction := (log.filterMap (Edit.default? name)).getLast?
  disabled := log.contains (.disable name)

/-! ## One edit -/

def Edit.change : Edit → Config → Config
  | addEntry _ keySet action => (·.addRule { keySet, action })
  | addRule _ rule => (·.addRule rule)
  | setDefault _ action => (·.setDefault action)
  | disable _ => Config.disable

theorem Edit.apply_eq_update (store : Store) (edit : Edit) :
    edit.apply store = store.update edit.table edit.change := by
  cases edit <;> rfl

theorem Edit.append_change (edit : Edit) (a b : Config) : a.append (edit.change b) = edit.change (a.append b) := by
  cases edit with
  | addEntry table keySet action => exact Config.append_addRule a b _
  | addRule table rule => exact Config.append_addRule a b rule
  | setDefault table action => exact Config.append_setDefault a b action
  | disable table => exact Config.append_disable a b

theorem Edit.merge_apply (store later : Store) (edit : Edit) :
    store.merge (edit.apply later) = edit.apply (store.merge later) := by
  rw [apply_eq_update, apply_eq_update]
  exact merge_update edit.append_change

theorem logged_concat (log : List Edit) (edit : Edit) (name : String) :
    logged (log ++ [edit]) name = if edit.table = name then edit.change (logged log name) else logged log name := by
  by_cases h : edit.table = name
  · subst h
    rw [if_pos rfl]
    cases edit <;> simp [logged, Edit.table, Edit.change, Edit.rule?, Edit.default?, Config.addRule,
      Config.setDefault, Config.disable]
  · rw [if_neg h]
    cases edit with
    | addEntry table keySet action => simp [logged, Edit.rule?, Edit.default?, show table ≠ name from h]
    | addRule table rule => simp [logged, Edit.rule?, Edit.default?, show table ≠ name from h]
    | setDefault table action => simp [logged, Edit.rule?, Edit.default?, show table ≠ name from h]
    | disable table => simp [logged, Edit.rule?, Edit.default?, Ne.symm (show table ≠ name from h)]

/-! ## A whole log -/

def replay (log : List Edit) : Store := log.foldl Edit.apply ∅

theorem replay_concat (log : List Edit) (edit : Edit) : replay (log ++ [edit]) = edit.apply (replay log) :=
  List.foldl_concat ..

theorem config_replay (log : List Edit) (name : String) : (replay log).config name = logged log name := by
  induction log using List.reverseRecOn with
  | nil => rfl
  | append_singleton log edit ih =>
    rw [replay_concat, Edit.apply_eq_update, logged_concat]
    by_cases h : edit.table = name
    · subst h
      rw [config_update_self, ih, if_pos rfl]
    · rw [config_update_of_ne (Ne.symm h), ih, if_neg h]

theorem table?_replay (log : List Edit) (name : String) :
    (replay log).table? name = if ∃ edit ∈ log, edit.table = name then some (logged log name) else none := by
  induction log using List.reverseRecOn with
  | nil => simp [replay]
  | append_singleton log edit ih =>
    rw [replay_concat, Edit.apply_eq_update, logged_concat]
    by_cases h : edit.table = name
    · subst h
      rw [table?_update_self, config_replay]
      simp
    · rw [table?_update_of_ne (Ne.symm h), ih]
      simp [h]

theorem merge_replay (store : Store) (log : List Edit) : store.merge (replay log) = log.foldl Edit.apply store := by
  induction log using List.reverseRecOn with
  | nil => rfl
  | append_singleton log edit ih => rw [replay_concat, Edit.merge_apply, ih, List.foldl_concat]

theorem Script.run_eq_replay (script : Script) : script.run = replay script.log := by
  induction script with
  | start => rfl
  | edit script e ih => rw [run, log, replay_concat, ih]
  | merge script other ih ihOther =>
    rw [run, log, ih, ihOther, merge_replay]
    exact (List.foldl_append ..).symm

/-! ## Every store -/

/-- However a store came about, the edits of a table are all that it holds for the table, and
    the merges leave no trace: merging is associative with the empty store as its unit. -/
theorem store_follows_log :
    (∀ (script : Script) (name : String), script.run.table? name =
      if ∃ edit ∈ script.log, edit.table = name then
        some
          { table := name
            rules := script.log.filterMap (Edit.rule? name)
            defaultAction := (script.log.filterMap (Edit.default? name)).getLast?
            disabled := script.log.contains (.disable name) }
      else none) ∧
    (∀ a b c : Store, (a.merge b).merge c = a.merge (b.merge c)) ∧
    ∀ store : Store, (∅ : Store).merge store = store ∧ store.merge ∅ = store := by
  refine ⟨fun script name => ?_, merge_assoc, fun store => ⟨empty_merge store, merge_empty store⟩⟩
  rw [script.run_eq_replay]
  exact table?_replay script.log name

/-- A rule and two defaults of one table, the later default from a store that was merged into a
    store that was merged, with a mark on another table in between. -/
example :
    let rule : Rule := { keySet := ∅, action := .direct "permit" 0 [] }
    let script : Script := .merge (.edit .start (.setDefault "acl" (.direct "drop" 1 [])))
      (.merge (.edit .start (.disable "nat"))
        (.edit (.edit .start (.addRule "acl" rule)) (.setDefault "acl" (.profile (.member 7)))))
    script.run.table? "acl" = some ⟨"acl", [rule], some (.profile (.member 7)), false⟩ ∧
      (script.run.table? "nat").map (·.disabled) = some true := by decide

end Store

end MatchAction
