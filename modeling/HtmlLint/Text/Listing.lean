/-! # Listing alternatives

Messages name alternatives the way a sentence does: `a, b or c`. -/

namespace HtmlLint.Text

/-- The texts one after the other with a separator between neighbours. -/
def joinWith (sep : String) : List String → String
  | [] => ""
  | s :: rest => rest.foldl (fun text t => text ++ sep ++ t) s

@[simp] theorem joinWith_nil (sep : String) : joinWith sep [] = "" :=
  rfl

@[simp] theorem joinWith_singleton (sep s : String) : joinWith sep [s] = s :=
  rfl

/-- What is joined so far stays in front. -/
private theorem foldl_join_append (sep a b : String) (rest : List String) :
    rest.foldl (fun text t => text ++ sep ++ t) (a ++ b)
      = a ++ rest.foldl (fun text t => text ++ sep ++ t) b := by
  induction rest generalizing b with
  | nil => rfl
  | cons t rest ih =>
    rw [List.foldl_cons, List.foldl_cons, ← ih, String.append_assoc, String.append_assoc,
      String.append_assoc]

@[simp] theorem joinWith_cons_cons (sep s t : String) (rest : List String) :
    joinWith sep (s :: t :: rest) = s ++ sep ++ joinWith sep (t :: rest) := by
  simp only [joinWith, List.foldl_cons, foldl_join_append]

/-- The alternatives with commas between all but the last two, which the conjunction joins. -/
def listing (conjunction : String) (items : List String) : String :=
  match items.reverse with
  | [] => ""
  | [single] => single
  | last :: init => joinWith ", " init.reverse ++ " " ++ conjunction ++ " " ++ last

end HtmlLint.Text
