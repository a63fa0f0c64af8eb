import Zhengqi.HttpServer
import Zhengqi.Lib.OrdMap

/-!
# Inspector

`networking/inspect/Inspector.cpp`: commands that are called through a web server, each under the name of a module.
`add`, `remove` and `onRequest` hold `mutex_`, so that they come one after the other in any order.
-/

namespace Zhengqi

abbrev ArgList := List Bytes

/-- A callback may be empty. -/
abbrev InspectorCallback := Option (Method → ArgList → Bytes)

structure Inspector where
  modules : OrdMap Bytes (OrdMap Bytes InspectorCallback) := .empty
  helps : OrdMap Bytes (OrdMap Bytes Bytes) := .empty

namespace Inspector

/-- The loop of `split`, from `start` on. -/
def splitFrom (str : Bytes) : (fuel start : Nat) → List Bytes
  | 0, _ => []
  | fuel + 1, start =>
    let pos := start + (str.drop start).idxOf (chr '/')
    if pos < str.length then
      (if start < pos then [Slice.slice str start pos] else []) ++ splitFrom str fuel (pos + 1)
    else if start < str.length then [str.drop start]
    else []

/-- Every turn of the loop goes on behind a character. -/
def split (str : Bytes) : List Bytes := splitFrom str (str.length + 1) 0

def add (i : Inspector) (module command : Bytes) (cb : InspectorCallback) (help : Bytes) : Inspector where
  modules := i.modules.insert module ((i.modules.getD module .empty).insert command cb)
  helps := i.helps.insert module ((i.helps.getD module .empty).insert command help)

def remove (i : Inspector) (module command : Bytes) : Inspector :=
  match i.modules.find module with
  | none => i
  | some commands => {
      modules := i.modules.insert module (commands.erase command)
      helps := i.helps.insert module ((i.helps.getD module .empty).erase command) }

def helpLine (module command help : Bytes) : Bytes :=
  let len := module.length + command.length
  ascii "/" ++ module ++ ascii "/" ++ command ++ List.replicate (if 25 ≤ len then 1 else 25 - len) (chr ' ') ++
    help ++ ascii "\n"

def ok (resp : HttpResponse) (contentType body : Bytes) : HttpResponse :=
  { resp with
    statusCode := .k200Ok
    statusMessage := ascii "OK"
    headers := resp.headers.set (ascii "Content-Type") contentType
    body }

def notFound (resp : HttpResponse) : HttpResponse :=
  { resp with statusCode := .k404NotFound, statusMessage := ascii "Not Found" }

/-- `favicon` are the bytes of the picture in the source. -/
def onRequest (favicon : Bytes) (i : Inspector) (req : HttpRequest) (resp : HttpResponse) : HttpResponse :=
  if req.path = ascii "/" then
    ok resp (ascii "text/plain") (i.helps.toList.flatMap fun (module, list) =>
      list.toList.flatMap fun (command, help) => helpLine module command help)
  else
    match split req.path with
    | [] => notFound resp
    | [module] => if module = ascii "favicon.ico" then ok resp (ascii "image/png") favicon else notFound resp
    | module :: command :: args =>
      match i.modules.find module with
      | none => notFound resp
      | some commList =>
        match commList.find command with
        | some (some cb) => ok resp (ascii "text/plain") (cb req.method args)
        | some none | none => notFound resp

inductive Op
  | add (module command : Bytes) (cb : InspectorCallback) (help : Bytes)
  | remove (module command : Bytes)

def exec (i : Inspector) : Op → Inspector
  | .add module command cb help => i.add module command cb help
  | .remove module command => i.remove module command

end Inspector

end Zhengqi
