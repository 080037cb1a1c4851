import HelloBoot.Util.Tree.TreeToList
import HelloBoot.Util.Tree.Relink
import HelloBoot.Util.Tree.Cycles
import HelloBoot.Util.Tree.Calls
import HelloBoot.Transition.Commitment
import HelloBoot.Es.EsStatPaging
import HelloBoot.Util.Mq.SameEffect
import HelloBoot.Util.Mq.Wedge
import HelloBoot.Util.Mq.FailedRequest
import HelloBoot.Websocket.Delivery
import HelloBoot.Lock.CallTask
import HelloBoot.Lock.TicketThread
import HelloBoot.Controller.RedismqController
import HelloBoot.Static.Pager
import HelloBoot.Allocation.Agree
import HelloBoot.Allocation.Optimum
import HelloBoot.Allocation.Closest
import HelloBoot.Util.Yml.Flatten
import HelloBoot.Util.Yml.Shared
import HelloBoot.Util.Yml.NullLeaves
import HelloBoot.Util.Poi.RoundTrip
import HelloBoot.Util.Poi.Reexport
import HelloBoot.Util.Poi.AnyValue
import HelloBoot.Util.Transaction.Settled
import HelloBoot.Util.Transaction.Deadlock
import HelloBoot.Util.Transaction.Frozen
import HelloBoot.Util.Http.Queries
import HelloBoot.Util.Http.Forms
import HelloBoot.Util.Http.Answers
import HelloBoot.Util.Str.ReadBack
import HelloBoot.Util.Sql.Failures
import HelloBoot.Es.FullScan
import HelloBoot.Config.RealDates
import HelloBoot.Annotation.OneLimiter
import HelloBoot.Annotation.RateLimitAop
import HelloBoot.Annotation.FixedValueValidator
import HelloBoot.Config.MybatisPlusConfig
import HelloBoot.Tactful.OrderService
import HelloBoot.Thrift.Registration
import HelloBoot.Thrift.HelloService
import HelloBoot.Thrift.ThriftClient
import HelloBoot.Util.Redis.Borrowed
import HelloBoot.Util.Mq.OpenChannels
import HelloBoot.Util.Mq.Redelivery
import HelloBoot.Util.Desensitize.Surrogates
import HelloBoot.Util.EnCoderCipherUtil
import HelloBoot.Util.Poi.OneEntry
import HelloBoot.Thrift.Calls
