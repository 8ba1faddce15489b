import Sandcat.Message

/-!
# Errors that cross the gRPC boundary

An error is sent as a status: the name of its kind is the message, its details are the bytes beside
it. The other side looks the name up in a table of its own. The source of an error stays behind, and
the code of a status is read by nobody here.
-/

namespace Sandcat

open Bincode (Bytes)

/-- An error that is not a panic, without its source. -/
structure ErrorValue where
  kind : ErrorKind
  details : Option String
  deriving DecidableEq, Repr

/-- The codes of gRPC that are sent. -/
inductive Code where
  | unknown | notFound | unauthenticated | invalidArgument | internal
  deriving DecidableEq, Repr

structure Status where
  code : Code
  message : String
  details : Bytes

/-- `{:?}` of a kind. -/
def ErrorKind.debug : ErrorKind → String
  | .unknownError => "UnknownError"
  | .dbError => "DbError"
  | .configReadError => "ConfigReadError"
  | .configParseError => "ConfigParseError"
  | .notFound => "NotFound"
  | .broadCastError => "BroadCastError"
  | .internalServer => "InternalServer"
  | .bodyParsing => "BodyParsing"
  | .pathParsing => "PathParsing"
  | .unAuthorized => "UnAuthorized"
  | .parseError => "ParseError"
  | .tonicError => "TonicError"
  | .mongoDbValueAccessError => "MongoDbValueAccessError"
  | .mongoDbBsonSerError => "MongoDbBsonSerError"
  | .mongoDbOperateError => "MongoDbOperateError"
  | .redisError => "RedisError"
  | .ioError => "IOError"
  | .reqwestError => "ReqwestError"
  | .serviceNotFound => "ServiceNotFound"
  | .badRequest => "BadRequest"
  | .accountOrPassword => "AccountOrPassword"
  | .ossError => "OSSError"
  | .codeIsExpired => "CodeIsExpired"
  | .codeIsInvalid => "CodeIsInvalid"
  | .binCode => "BinCode"

namespace Status

/-- The code of `From<Error> for Status`. -/
def codeOf : ErrorKind → Code
  | .unknownError => .unknown
  | .notFound => .notFound
  | .accountOrPassword => .unauthenticated
  | .bodyParsing | .pathParsing | .unAuthorized | .badRequest | .codeIsExpired | .codeIsInvalid =>
    .invalidArgument
  | .ossError | .dbError | .configReadError | .configParseError | .broadCastError | .internalServer
  | .parseError | .tonicError | .mongoDbValueAccessError | .mongoDbBsonSerError
  | .mongoDbOperateError | .redisError | .ioError | .reqwestError | .binCode | .serviceNotFound =>
    .internal

/-- `From<Error> for Status`. -/
def ofError (e : ErrorValue) : Status :=
  let details := e.details.getD ""
  ⟨codeOf e.kind, e.kind.debug, details.toByteArray.data.toList⟩

end Status

namespace ErrorValue

/-- The table of `From<Status> for Error`. -/
def kindOf (message : String) : ErrorKind :=
  match message with
  | "UnknownError" => .unknownError
  | "DbError" => .dbError
  | "ConfigReadError" => .configReadError
  | "ConfigParseError" => .configParseError
  | "NotFound" => .notFound
  | "BroadCastError" => .broadCastError
  | "InternalServer" => .internalServer
  | "BodyParsing" => .bodyParsing
  | "PathParsing" => .pathParsing
  | "UnAuthorized" => .unAuthorized
  | "ParseError" => .parseError
  | "TonicError" => .tonicError
  | "MongoDbValueAccessError" => .mongoDbValueAccessError
  | "MongoDbOperateError" => .mongoDbOperateError
  | "MongoDbBsonSerError" => .mongoDbBsonSerError
  | "RedisError" => .redisError
  | "IOError" => .ioError
  | "ReqwestError" => .reqwestError
  | "ServiceNotFound" => .serviceNotFound
  | "BadRequest" => .badRequest
  | "AccountOrPassword" => .accountOrPassword
  | "OSSError" => .ossError
  | "CodeIsExpired" => .codeIsExpired
  | "CodeIsInvalid" => .codeIsInvalid
  | "BinCode" => .binCode
  | _ => .unknownError

/-- `From<Status> for Error`; details that are not a text are dropped. -/
def ofStatus (status : Status) : ErrorValue :=
  ⟨kindOf status.message, String.fromUTF8? ⟨status.details.toArray⟩⟩

/-- The status of `into_response`; the body is the error itself. -/
def statusCode (e : ErrorValue) : Nat :=
  match e.kind with
  | .bodyParsing | .pathParsing | .badRequest | .codeIsExpired | .codeIsInvalid => 400
  | .accountOrPassword | .unAuthorized => 401
  | .notFound => 404
  | .dbError | .parseError | .configReadError | .configParseError | .tonicError
  | .mongoDbValueAccessError | .mongoDbOperateError | .mongoDbBsonSerError | .redisError
  | .reqwestError | .ioError | .serviceNotFound | .broadCastError | .ossError | .binCode
  | .internalServer | .unknownError => 500

/-- Every kind is in the table, under its own name. -/
@[simp] theorem kindOf_debug (kind : ErrorKind) : kindOf kind.debug = kind := by
  cases kind <;> rfl

/-- What an error is on the other side. -/
theorem ofStatus_ofError (e : ErrorValue) :
    ofStatus (Status.ofError e) = ⟨e.kind, some (e.details.getD "")⟩ := by
  simp [ofStatus, Status.ofError]

end ErrorValue

/-- The kind and the details of an error cross the boundary, where no details are the empty ones,
and so does its answer over HTTP. -/
theorem errors_survive (e : ErrorValue) :
    (ErrorValue.ofStatus (Status.ofError e)).kind = e.kind ∧
      (ErrorValue.ofStatus (Status.ofError e)).details.getD "" = e.details.getD "" ∧
      (ErrorValue.ofStatus (Status.ofError e)).statusCode = e.statusCode := by
  rw [ErrorValue.ofStatus_ofError]
  exact ⟨rfl, rfl, rfl⟩

end Sandcat
