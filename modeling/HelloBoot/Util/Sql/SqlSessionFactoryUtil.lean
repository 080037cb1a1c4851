import HelloBoot.Java.Call
import Mathlib.Data.List.Basic

/-!
# `SqlSessionFactoryUtil`

`batch` opens a session on the data source of the thread and calls a mapper method, which
it finds through the serialized form of a lambda, for each item of a list. What it calls
of Java's reflection and of the database library is a parameter, `SqlSessionApi`, on an
environment that decides what returns and what throws. A `World` holds the environment,
the stack of `DynamicDataSourceContextHolder` on the thread, and the local variable
`sqlSession` with the calls that have returned on the session.
-/

namespace HelloBoot.SqlSessionFactoryUtil

structure Class where
  name : String
  deriving DecidableEq

structure Method where
  declaringClass : Class
  name : String
  deriving DecidableEq

structure SerializedLambda where
  implClass : String
  implMethodName : String

/-- A `LambdaFun` on an environment `β`; `writeReplace` is the reflective call of this
method, with the cast of its result. -/
structure LambdaFun (β : Type) where
  writeReplace : EStateM Throwable β SerializedLambda

def LambdaFun.getSerializedLambda {β : Type} (action : LambdaFun β) :
    EStateM Throwable β SerializedLambda :=
  Call.wrapException action.writeReplace

/-- The calls of Java's reflection and of the database library, for items of a class `τ`.
A mapper is named by a number. -/
structure SqlSessionApi (β τ : Type) where
  forName : String → EStateM Throwable β Class
  openSession : EStateM Throwable β Unit
  getMapper : Class → EStateM Throwable β ℕ
  getDeclaredMethod : Class → String → τ → EStateM Throwable β Method
  invoke : Method → ℕ → τ → EStateM Throwable β Unit
  commit : EStateM Throwable β Unit
  clearCache : EStateM Throwable β Unit
  rollback : EStateM Throwable β Unit
  close : EStateM Throwable β Unit

inductive SessionCall where
  | commit
  | clearCache
  | rollback
  | close
  deriving DecidableEq

/-- What `batch` works on. The top of the stack comes first; `sqlSession` is null or the
session, with the calls that have returned on it. -/
structure World (β : Type) where
  stack : List String
  sqlSession : Option (List SessionCall)
  env : β

variable {β τ α : Type}

def inEnv (x : EStateM Throwable β α) : EStateM Throwable (World β) α := fun w =>
  match x w.env with
  | .ok a env => .ok a { w with env := env }
  | .error t env => .error t { w with env := env }

/-- A call on `sqlSession`, which may be null. -/
def onSession (call : SessionCall) (x : EStateM Throwable β Unit) :
    EStateM Throwable (World β) Unit := fun w =>
  match w.sqlSession with
  | none => .error .nullPointer w
  | some calls =>
      match x w.env with
      | .ok _ env => .ok () { w with sqlSession := some (calls ++ [call]), env := env }
      | .error t env => .error t { w with env := env }

/-- `DynamicDataSourceContextHolder.peek()`, and `push` of what it returns. -/
def pushPeek : EStateM Throwable (World β) Unit :=
  modify fun w =>
    match w.stack.head? with
    | none => w
    | some peek => { w with stack := peek :: w.stack }

def replaceSlashes (s : String) : String := s.map fun c => if c = '/' then '.' else c

variable (api : SqlSessionApi β τ)

/-- `batch` up to the opening of the session: the class of the mapper and the name of its
method. -/
def openBatch (action : LambdaFun β) : EStateM Throwable (World β) (Class × String) := do
  pushPeek
  let lambda ← inEnv action.getSerializedLambda
  let aClass ← inEnv (api.forName (replaceSlashes lambda.implClass))
  let lambda ← inEnv action.getSerializedLambda
  inEnv api.openSession
  modify fun w => { w with sqlSession := some [] }
  return (aClass, lambda.implMethodName)

def batchItem (aClass : Class) (implMethodName : String) (mapper : ℕ) :
    Option τ → EStateM Throwable (World β) Unit
  -- item.getClass()
  | none => throw .nullPointer
  | some item => do
      let method ← inEnv (api.getDeclaredMethod aClass implMethodName item)
      inEnv (api.invoke method mapper item)

def runBatch (list : List (Option τ)) (opened : Class × String) :
    EStateM Throwable (World β) Unit := do
  let mapper ← inEnv (api.getMapper opened.1)
  list.forM (batchItem api opened.1 opened.2 mapper)
  onSession .commit api.commit

def upToCommit (list : List (Option τ)) (action : LambdaFun β) :
    EStateM Throwable (World β) Unit :=
  openBatch api action >>= runBatch api list

def batch (list : List (Option τ)) (action : LambdaFun β) : EStateM Throwable (World β) Unit := do
  modify fun w => { w with sqlSession := none }
  Call.andFinally
    (Call.catchException
      (do
        upToCommit api list action
        onSession .clearCache api.clearCache)
      fun e => do
        onSession .rollback api.rollback
        throw (.runtime e))
    (onSession .close api.close)

end HelloBoot.SqlSessionFactoryUtil
