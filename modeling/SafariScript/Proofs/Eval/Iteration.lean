import Mathlib.Data.Int.Range
import SafariScript.Proofs.Eval.Passes

/-!
# `for` goes through a snapshot

What a `for` loop goes through is settled when its header has been evaluated (`Snapshot`): the integers of a range,
the characters of a string, or the elements that an array has at that moment. Before each pass the loop gives its
variable the next of them, in its own scope, and writes nothing else (`Assigns`). The body may push to the array,
write to what the header named or assign to the variable: it leaves the scope of the loop with the variable in it, so
the next pass begins with the next item all the same (`exists_laps`).
-/

namespace SafariScript

open Eval

/-- The items of a `for` loop whose header has these values in a world. -/
inductive Snapshot (w : World) : Value → Option Value → List Value → Prop
  | range (first last : Int) : Snapshot w (.int first) (some (.int last)) ((Int.range first (last + 1)).map .int)
  | characters (s : String) : Snapshot w (.text s) none (s.toList.map fun c => .text c.toString)
  | elements (id : Nat) : Snapshot w (.array id) none (w.array id).toList

/-- Before a pass the loop gives its variable a value in its own scope, and does nothing else. -/
structure Assigns (own : Nat) (name : String) (w start : World) : Prop where
  scope : start.scope = own
  eq : ∃ item, start = { w with scopes := w.scopes.replace own name item }

/-! ## The items -/

theorem Items.toList_range_succ (next : Int) (count : Nat) :
    (Items.range next (count + 1)).toList = .int next :: (Items.range (next + 1) count).toList := by
  show (List.range (count + 1)).map _ = _ :: (List.range count).map _
  rw [List.range_succ_eq_map, List.map_cons, List.map_map]
  refine congrArg₂ List.cons (by simp) (List.map_congr_left fun i _ => ?_)
  show Value.int (next + (i + 1 : Nat)) = .int (next + 1 + i)
  rw [Int.natCast_succ, Int.add_comm (i : Int) 1, Int.add_assoc]

theorem forRange_eq_forValues (step : Value → Eval Bool) (next : Int) (count : Nat) :
    forRange step next count = forValues step (Items.range next count).toList := by
  induction count generalizing next with
  | zero => rfl
  | succ count ih => rw [Items.toList_range_succ, forRange, forValues, ih]

theorem forItems_eq_forValues (step : Value → Eval Bool) (items : Items) :
    forItems step items = forValues step items.toList := by
  cases items with
  | range next count => exact forRange_eq_forValues step next count
  | values values => rfl

theorem Snapshot.itemsOf {w : World} {first : Value} {last : Option Value} {items : List Value}
    (h : Snapshot w first last items) (line : Int) :
    ∃ given, Eval.itemsOf line first last w = .ok given w ∧ given.toList = items := by
  cases h with
  | range first last =>
      refine ⟨.between first last, rfl, ?_⟩
      unfold Items.between Items.toList Int.range
      rw [List.map_map]
      rfl
  | characters s => exact ⟨_, rfl, rfl⟩
  | elements id => exact ⟨_, rfl, rfl⟩

/-! ## The passes -/

section Passes

variable {own : Nat} {name : Word} {w : World} {body : Eval Unit}

theorem World.AtLoop.assigns (hw : w.AtLoop own name.text) (item : Value) :
    ∃ start, assign name item w = .ok () start ∧ Assigns own name.text w start ∧ start.AtLoop own name.text ∧
      start.scopes.local? own name.text = some item :=
  ⟨_, hw.assign_eq item, ⟨hw.scope, item, rfl⟩, hw.of_scopes rfl rfl⟩

/-- From wherever a loop stands, its variable has in the passes that follow the items that follow, one after the other,
and all of them unless a pass leaves the loop. -/
theorem exists_laps (hbody : Confined false body) (items : List Value) (hw : w.AtLoop own name.text) :
    ∃ starts ending w', Laps (Assigns own name.text) body w starts ending w' ∧
      forValues (fun item => do assign name item; pass body) items w = ended (outside ending) w' ∧
      starts.map (·.scopes.local? own name.text) <+: items.map some ∧
      (ending = none → starts.map (·.scopes.local? own name.text) = items.map some) := by
  induction items generalizing w with
  | nil => exact ⟨[], none, w, .done w, rfl, List.prefix_rfl, fun _ => rfl⟩
  | cons item items ih =>
      obtain ⟨start, hset, hassigns, hstart, hvalue⟩ := hw.assigns item
      have hrun : forValues (fun item => do assign name item; pass body) (item :: items) w =
          (do if ← pass body then forValues (fun item => do assign name item; pass body) items : Eval Unit)
            start := by
        rw [forValues, bind_assoc]
        exact bind_of_ok hset _
      rw [hrun]
      rcases pass_cases body start with ⟨hgoes, hpass⟩ | ⟨e, hleft, hgoes, hends⟩
      · obtain ⟨starts, ending, w', hlaps, hlater, hprefix, hall⟩ := ih (hstart.after hbody)
        refine ⟨start :: starts, ending, w', .pass hassigns hgoes hlaps, ?_, ?_, fun hnone => ?_⟩
        · rw [bind_of_ok hpass]
          exact hlater
        · rw [List.map_cons, List.map_cons, hvalue]
          exact List.cons_prefix_cons.2 ⟨rfl, hprefix⟩
        · rw [List.map_cons, List.map_cons, hvalue, hall hnone]
      · refine ⟨[start], some e, start.after body, .left hassigns hleft hgoes, hends _, ?_, fun h => nomatch h⟩
        rw [List.map_cons, List.map_cons, hvalue]
        exact List.cons_prefix_cons.2 ⟨rfl, List.nil_prefix⟩

end Passes

/-- Let the header of a `for` statement be evaluated, and let its items be those of the world in which that ends. The
statement goes through them in a scope that was not there before: before each pass it gives its variable a value
there, and writes nothing else. The values that the variable has when the passes begin are the first of the items, in
order, and they are all of them unless a pass ends by something else than `continue`. What another scope declares, a
variable of the same name among them, is in the end what it was if no pass changes it. -/
theorem for_goes_through_snapshot (budget room : Nat) (line : Int) (name : Word) (header : Expr) (stop : Option Expr)
    (body : List Stmt) {w w₁ w₂ : World} {first : Value} {last : Option Value} {items : List Value}
    (hfirst : eval budget (room + 4) header w = .ok first w₁)
    (hlast : stop.mapM (eval budget (room + 4)) w₁ = .ok last w₂) (hitems : Snapshot w₂ first last items) :
    let loop := exec budget (room + 6) (.forIn line name header stop body)
    let block := inBlock (body.forM (exec budget room))
    let own := w₂.scopes.all.size
    ∃ starts ending w', Laps (Assigns own name.text) block (w₂.opened name.text) starts ending w' ∧
      loop w = ended (outside ending) { w' with scope := w₂.scope } ∧
      starts.map (·.scopes.local? own name.text) <+: items.map some ∧
      ((∀ start ∈ starts, goesOn (start.ending block) = true) →
        starts.map (·.scopes.local? own name.text) = items.map some) ∧
      ∀ scope y, scope ≠ own →
        (∀ start ∈ starts, (start.after block).scopes.local? scope y = start.scopes.local? scope y) →
        (w.after loop).scopes.local? scope y = w₂.scopes.local? scope y := by
  intro loop block own
  obtain ⟨given, hgiven, hlist⟩ := hitems.itemsOf line
  have hblock : Confined false block := confined_block budget room body
  obtain ⟨starts, ending, w', hlaps, hrun, hprefix, hall⟩ :=
    exists_laps hblock items (w₂.atLoop_opened name.text)
  have hloop : loop w = ended (outside ending) { w' with scope := w₂.scope } := by
    have hforLoop : loop w = forLoop name given block w₂ := by
      show (eval budget (room + 4) header >>= fun first => stop.mapM (eval budget (room + 4)) >>= fun last =>
        Eval.itemsOf line first last >>= fun given => forLoop name given block) w = _
      rw [bind_of_ok hfirst, bind_of_ok hlast, bind_of_ok hgiven]
    have hopened : forLoop name given block w₂ = onWorld (fun w' => { w' with scope := w₂.scope })
        (forItems (fun item => do assign name item; pass block) given (w₂.opened name.text)) :=
      inOwnScope_apply name _ w₂
    rw [hforLoop, hopened, forItems_eq_forValues, hlist, hrun, onWorld_ended]
  refine ⟨starts, ending, w', hlaps, hloop, hprefix, fun hgoes => hall (hlaps.ending_eq_none_iff.2 hgoes), ?_⟩
  intro scope y hscope hbody
  rw [after_of_ended hloop]
  refine (hlaps.eq_of_unchanged (·.scopes.local? scope y) ?_ hbody).trans (w₂.local?_opened name.text hscope y)
  rintro v start ⟨-, item, rfl⟩
  show (v.scopes.replace own name.text item).local? scope y = _
  rw [Scopes.local?_replace, if_neg fun h => hscope h.1]

/-- A loop over an array pushes each item to it, multiplies its variable by ten and is left when that is twenty. There
is a variable of the same name outside. -/
theorem for_goes_through_snapshot_pushed :
    let x : Expr := .ident ⟨"x", 3⟩
    let body : List Stmt := [.expr (.call (.ident ⟨"push", 3⟩) 3 [.ident ⟨"a", 3⟩, x] []),
      .expr (.assign ⟨"x", 4⟩ (.binary x (.int .multiply) 4 (.literal (.int 10)))),
      .cond (.binary x .equal 5 (.literal (.int 20))) [.breakLoop] .nothing]
    let numbers : Expr := .array [.literal (.int 1), .literal (.int 2), .literal (.int 3)]
    let w := (World.initial (.ofScript []) .unknown []).afterAll 3 60
      [(false, ⟨[.var ⟨"a", 1⟩ (some numbers), .var ⟨"x", 2⟩ (some (.literal (.int 7)))]⟩)]
    let loop := exec 3 60 (.forIn 3 ⟨"x", 3⟩ (.ident ⟨"a", 3⟩) none body)
    eval 3 58 (.ident ⟨"a", 3⟩) w = .ok (.array 0) w ∧
      Snapshot w (.array 0) none [.int 1, .int 2, .int 3] ∧
      (w.after loop).array 0 = #[.int 1, .int 2, .int 3, .int 1, .int 2] ∧
      (w.after loop).scopes.local? 0 "x" = some (.int 7) ∧
      ∃ starts ending w', Laps (Assigns 1 "x") (inBlock (body.forM (exec 3 54))) (w.opened "x") starts ending w' ∧
        loop w = ended (outside ending) { w' with scope := w.scope } ∧
        starts.map (·.scopes.local? 1 "x") <+: [some (.int 1), some (.int 2), some (.int 3)] := by
  intro x body numbers w loop
  have hget : w.scopes.get? w.scope "a" = some (.array 0) := by decide +kernel
  have hfirst : eval 3 58 (.ident ⟨"a", 3⟩) w = .ok (.array 0) w := lookup_of_get? hget
  have hsize : w.scopes.all.size = 1 := by decide +kernel
  have harray : (w.array 0).toList = [.int 1, .int 2, .int 3] := by decide +kernel
  have hitems : Snapshot w (.array 0) none [.int 1, .int 2, .int 3] := by
    rw [← harray]
    exact .elements 0
  obtain ⟨starts, ending, w', hlaps, hloop, hprefix, -, -⟩ :=
    for_goes_through_snapshot 3 54 3 ⟨"x", 3⟩ (.ident ⟨"a", 3⟩) none body hfirst rfl hitems
  rw [hsize] at hlaps hprefix
  exact ⟨hfirst, hitems, by decide +kernel, by decide +kernel, starts, ending, w', hlaps, hloop, hprefix⟩

end SafariScript
